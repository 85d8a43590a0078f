import Mathlib.Logic.Function.Basic
import OsCourse.ControlMessages
import OsCourse.FileChecksum

/-! A data transfer of `stnc.c` as its server sees it: the receive routines,
the checksum of `recived.txt` and the verdict printed on it. The socket tests
store what they receive under another name. -/
namespace OsCourse.TransferVerdict
open Stdio ControlMessages FileChecksum

def PAGE_SIZE : Nat := 4096

/-- What the kernel and the client give the server during one transfer.
`recvs` and the pieces of `fifo` end with the stream or an error; `shared` is
the shared file as it stands once `recived.txt` is open. The counts say how
many of the bytes given to each `write` or `fwrite` reach the file. -/
structure Surroundings where
  socket : Bool
  bind : Bool
  accept : Bool
  create : Bool
  recvs : List (List Byte)
  nameReceived : Bool
  openTo : Bool
  shared : Option (List Byte)
  mapped : Bool
  written : Nat → Nat
  fifo : Option (List (List Byte))

/-- How a receive routine ends: back in `run_server` with its result, in
`exit(1)`, or with a fault on a page behind the shared file. -/
inductive Ended where
  | returned (recievedSize : BitVec 32) (d : Directory)
  | exited
  | faulted

def canRead : Option Entry → Bool
  | some (.file _ readable _) => readable
  | _ => true

def canWrite : Option Entry → Bool
  | none => true
  | some (.file _ _ writable) => writable
  | some .directory => false

/-- The entry with new content, which keeps the permissions of an old file. -/
def rewritten (content : List Byte) : Option Entry → Entry
  | some (.file _ readable writable) => .file content readable writable
  | _ => .file content true true

def store (d : Directory) (filename : String) (content : List Byte) : Directory :=
  { d with
    entry := Function.update d.entry (d.place filename)
      (some (rewritten content (d.lookup filename))) }

/-- The `recv` loop of `receiveFile`, with the total in an `int`: what it gives
to `fwrite`, call by call. -/
def receiveLoop (fileSize : BitVec 32) :
    List (List Byte) → (totalBytesRead : BitVec 32) → List (List Byte)
  | [], _ => []
  | buffer :: more, totalBytesRead =>
    if totalBytesRead.slt fileSize then
      if buffer = [] then []
      else buffer :: receiveLoop fileSize more (totalBytesRead + BitVec.ofNat 32 buffer.length)
    else []

/-- What calls of `fwrite` or `write` leave in the file. Their results are
ignored, so a call that fails is followed by the next one. -/
def writtenBytes (written : Nat → Nat) : List (List Byte) → (i : Nat) → List Byte
  | [], _ => []
  | buffer :: more, i => buffer.take (written i) ++ writtenBytes written more (i + 1)

/-- `receiveFile`. A datagram socket does not accept connections. -/
def receiveFile (w : Surroundings) (d : Directory) (dgram : Bool) (fileSize : BitVec 32) : Ended :=
  if ¬ w.socket then .returned (-1) d
  else if ¬ w.bind then .returned (-1) d
  else if ¬ w.accept ∨ dgram then .returned (-1) d
  else if ¬ w.create ∨ ¬ canWrite (d.lookup "received_file.bin") then .returned (-1) d
  else
    let buffers := receiveLoop fileSize w.recvs 0
    .returned 0 (store d "received_file.bin" (writtenBytes w.written buffers 0))

/-- `open(filename, O_RDWR | O_CREAT | O_TRUNC, S_IRUSR | S_IWUSR)` -/
def openTruncated (w : Surroundings) (d : Directory) (filename : String) : Option Directory :=
  if w.openTo ∧ canRead (d.lookup filename) ∧ canWrite (d.lookup filename) then
    some (store d filename [])
  else none

/-- What `fileSize` bytes of the shared mapping hold: the file, then zeros up
to the end of its last page, and nothing that can be read behind that. -/
def mappedBytes (content : List Byte) (fileSize : Nat) : Option (List Byte) :=
  if fileSize ≤ (content.length + (PAGE_SIZE - 1)) / PAGE_SIZE * PAGE_SIZE then
    some ((content ++ List.replicate fileSize 0#8).take fileSize)
  else none

/-- `getFileSize`, which takes the size of a directory for zero here. -/
def getFileSize (d : Directory) (filename : String) : BitVec 32 :=
  match d.lookup filename with
  | none => -1
  | some (.file content _ _) => BitVec.ofNat 32 content.length
  | some .directory => 0

/-- `copyFileFromSharedMemoryMmap`, `none` when a page behind the shared file
is touched. An empty or negative length cannot be mapped. -/
def copyFileFromSharedMemoryMmap (w : Surroundings) (d : Directory) (filenameTo : String)
    (fileSize : BitVec 32) : Option Directory :=
  match openTruncated w d filenameTo with
  | none => some d
  | some d =>
    match w.shared with
    | none => some d
    | some content =>
      if ¬ w.mapped ∨ fileSize.sle 0 then some d
      else (mappedBytes content fileSize.toNat).map fun bytes =>
        store d filenameTo (bytes.take (w.written 0))

/-- The `read` loop of `receiveFileFifo`: what it gives to `write`. -/
def fifoLoop : List (List Byte) → List (List Byte)
  | [] => []
  | buffer :: more => if buffer = [] then [] else buffer :: fifoLoop more

/-- `receiveFileFifo` -/
def receiveFileFifo (w : Surroundings) (d : Directory) (filenameTo : String) : Directory :=
  match openTruncated w d filenameTo with
  | none => d
  | some d =>
    match w.fifo with
    | none => d
    | some pieces => store d filenameTo (writtenBytes w.written (fifoLoop pieces) 0)

/-- The dispatch of `run_server` on the test name. -/
def receive (w : Surroundings) (d : Directory) (fileSize : BitVec 32) : Test → Ended
  | .ipv4Tcp | .ipv6Tcp | .udsStream => receiveFile w d false fileSize
  | .ipv4Udp | .ipv6Udp | .udsDgram => receiveFile w d true fileSize
  | .mmap =>
    if ¬ w.nameReceived then .exited
    else
      match copyFileFromSharedMemoryMmap w d "recived.txt" fileSize with
      | none => .faulted
      | some d => .returned (getFileSize d "recived.txt") d
  | .pipe =>
    if ¬ w.nameReceived then .exited
    else
      let d := receiveFileFifo w d "recived.txt"
      .returned (getFileSize d "recived.txt") d

inductive Line where
  /-- `"Checksums are equal\n"` -/
  | equal
  /-- `"Checksums are not equal\n"` -/
  | notEqual
  /-- `"File sizes are not equal packets were lost\n"` -/
  | packetsLost
  deriving DecidableEq, Repr

/-- The verdict of `run_server`, when it comes to one. -/
def verdict (quiet : Bool) (d : Directory) (checksum recievedSize fileSize : BitVec 32) :
    Option (List Line) :=
  (calculateChecksum d "recived.txt").map fun recieved_file_checksum =>
    if recieved_file_checksum = checksum ∧ ¬ quiet then [.equal]
    else if ¬ quiet then
      .notEqual :: if recievedSize ≠ fileSize then [.packetsLost] else []
    else []

/-- What the server prints about the transfer of an announced file. -/
def serveTransfer (quiet : Bool) (w : Surroundings) (d : Directory) (test : Test)
    (fileSize checksum : BitVec 32) : List Line :=
  match receive w d fileSize test with
  | .returned recievedSize d => (verdict quiet d checksum recievedSize fileSize).getD []
  | .exited | .faulted => []

/-! ## The property and its condition -/

/-- The bytes received in this transfer, if it delivered a file at all. -/
def delivered (w : Surroundings) (d : Directory) (fileSize : BitVec 32) : Test → Option (List Byte)
  | .ipv4Tcp | .ipv6Tcp | .udsStream =>
    if w.socket ∧ w.bind ∧ w.accept ∧ w.create ∧ canWrite (d.lookup "received_file.bin") then
      some (receiveLoop fileSize w.recvs 0).flatten
    else none
  | .ipv4Udp | .ipv6Udp | .udsDgram => none
  | .mmap =>
    if w.nameReceived ∧ w.mapped ∧ ¬ fileSize.sle 0 ∧ (openTruncated w d "recived.txt").isSome then
      w.shared.bind fun content => mappedBytes content fileSize.toNat
    else none
  | .pipe =>
    if w.nameReceived ∧ (openTruncated w d "recived.txt").isSome then
      w.fifo.map fun pieces => (fifoLoop pieces).flatten
    else none

/-- The server that is not quiet prints that the checksums are equal exactly
when the transfer delivered a file whose bytes add up to the announced sum. -/
def VerdictRight (w : Surroundings) (d : Directory) (test : Test) (fileSize checksum : BitVec 32) :
    Prop :=
  Line.equal ∈ serveTransfer false w d test fileSize checksum ↔
    ∃ bytes, delivered w d fileSize test = some bytes ∧ byteSum bytes = checksum

/-- A file left under the name the server checks has this sum, or there is
none that can be opened and the sum is the error value. -/
def LeftoverSums (d : Directory) (checksum : BitVec 32) : Prop :=
  match d.lookup "recived.txt" with
  | none | some (.file _ false _) => checksum = 0xFFFFFFFF#32
  | some (.file content true _) => byteSum content = checksum
  | some .directory => False

/-- The name a socket transfer is stored under leads to the checked file. -/
def Linked (d : Directory) : Prop := d.place "received_file.bin" = d.place "recived.txt"

instance (d : Directory) : Decidable (Linked d) := inferInstanceAs (Decidable (_ = _))

/-- What must hold for the verdict to be right. A socket transfer is judged by
what was left under `recived.txt` before, unless the name it is stored under is
linked to that; then, as for the others, what has reached the file counts, or
its emptiness when the source of the transfer could not be opened. -/
def RightWhen (w : Surroundings) (d : Directory) (fileSize checksum : BitVec 32) : Test → Prop
  | .mmap => w.nameReceived → match openTruncated w d "recived.txt" with
    | none => ¬ LeftoverSums d checksum
    | some _ =>
      match w.shared with
      | none => checksum ≠ 0
      | some content =>
        if ¬ w.mapped ∨ fileSize.sle 0 then checksum ≠ 0
        else ∀ bytes, mappedBytes content fileSize.toNat = some bytes →
          (byteSum (bytes.take (w.written 0)) = checksum ↔ byteSum bytes = checksum)
  | .pipe => w.nameReceived → match openTruncated w d "recived.txt" with
    | none => ¬ LeftoverSums d checksum
    | some _ =>
      match w.fifo with
      | none => checksum ≠ 0
      | some pieces =>
        byteSum (writtenBytes w.written (fifoLoop pieces) 0) = checksum ↔
          byteSum (fifoLoop pieces).flatten = checksum
  | test =>
    if Linked d ∧ canRead (d.lookup "recived.txt") ∧ (delivered w d fileSize test).isSome then
      byteSum (writtenBytes w.written (receiveLoop fileSize w.recvs 0) 0) = checksum ↔
        byteSum (receiveLoop fileSize w.recvs 0).flatten = checksum
    else LeftoverSums d checksum ↔
      ∃ bytes, delivered w d fileSize test = some bytes ∧ byteSum bytes = checksum

/-! ## The checked file -/

theorem checksum_leftover (d : Directory) (checksum : BitVec 32) :
    calculateChecksum d "recived.txt" = some checksum ↔ LeftoverSums d checksum := by
  unfold LeftoverSums
  cases entry : d.lookup "recived.txt" with
  | none => simp [calculateChecksum, entry, eq_comm]
  | some found =>
    cases found with
    | file content readable writable =>
      cases readable with
      | false => simp [calculateChecksum, entry, eq_comm]
      | true => rw [checksum_file content entry, Option.some.injEq]
    | directory => simp [calculateChecksum, entry]

theorem verdict_equal_iff (d : Directory) (checksum recievedSize fileSize : BitVec 32) :
    Line.equal ∈ (verdict false d checksum recievedSize fileSize).getD [] ↔
      LeftoverSums d checksum := by
  rw [← checksum_leftover, verdict]
  cases found : calculateChecksum d "recived.txt" with
  | none => simp
  | some recieved_file_checksum =>
    by_cases same : recieved_file_checksum = checksum
    · simp [same]
    · by_cases sizes : recievedSize = fileSize <;> simp [same, sizes]

@[simp] theorem lookup_store (d : Directory) (filename : String) (content : List Byte) :
    (store d filename content).lookup filename =
      some (rewritten content (d.lookup filename)) := by
  simp [Directory.lookup, store]

@[simp] theorem can_read_rewritten (content : List Byte) (entry : Option Entry) :
    canRead (some (rewritten content entry)) = canRead entry := by
  cases entry with
  | none => rfl
  | some found => cases found <;> rfl

theorem leftover_stored (content : List Byte) (checksum : BitVec 32)
    (readable : canRead (d.lookup "recived.txt") = true) :
    LeftoverSums (store d "recived.txt" content) checksum ↔ byteSum content = checksum := by
  unfold LeftoverSums
  rw [lookup_store]
  cases entry : d.lookup "recived.txt" with
  | none => rfl
  | some found =>
    cases found with
    | file old readable' writable =>
      rw [entry] at readable
      cases readable
      rfl
    | directory => rfl

theorem leftover_unreadable (content : List Byte) (checksum : BitVec 32)
    (unreadable : ¬ canRead (d.lookup "recived.txt") = true) :
    LeftoverSums (store d "recived.txt" content) checksum ↔ LeftoverSums d checksum := by
  unfold LeftoverSums
  rw [lookup_store]
  cases entry : d.lookup "recived.txt" with
  | none => exact absurd rfl (entry ▸ unreadable)
  | some found =>
    cases found with
    | file old readable writable =>
      cases readable with
      | false => rfl
      | true => exact absurd rfl (entry ▸ unreadable)
    | directory => exact absurd rfl (entry ▸ unreadable)

/-- What is stored under another name is seen only through a link. -/
theorem leftover_linked (linked : Linked d) :
    LeftoverSums (store d "received_file.bin" content) checksum ↔
      LeftoverSums (store d "recived.txt" content) checksum := by
  unfold LeftoverSums Directory.lookup store
  rw [Linked] at linked
  simp only [Directory.lookup, linked]

theorem leftover_elsewhere (apart : ¬ Linked d) :
    LeftoverSums (store d "received_file.bin" content) checksum ↔ LeftoverSums d checksum := by
  have same : (store d "received_file.bin" content).lookup "recived.txt" = d.lookup "recived.txt" :=
    Function.update_of_ne (Ne.symm apart) _ _
  unfold LeftoverSums
  rw [same]

/-- A file opened for writing is empty and then holds what is written to it. -/
theorem opened_leftover (opened : openTruncated w d "recived.txt" = some emptied)
    (checksum : BitVec 32) :
    (LeftoverSums emptied checksum ↔ checksum = 0) ∧
      ∀ content, LeftoverSums (store emptied "recived.txt" content) checksum ↔
        byteSum content = checksum := by
  unfold openTruncated at opened
  split at opened
  next allowed =>
    cases opened
    have readable : canRead ((store d "recived.txt" []).lookup "recived.txt") = true := by
      rw [lookup_store, can_read_rewritten]
      exact allowed.2.1
    refine ⟨?_, fun content => leftover_stored content checksum readable⟩
    rw [leftover_stored [] checksum allowed.2.1]
    exact eq_comm
  next => cases opened

/-! ## The transports -/

/-- A socket test stores what it receives, or leaves the directory as it was
and has delivered nothing. -/
def SocketTest (w : Surroundings) (d : Directory) (fileSize : BitVec 32) (test : Test) : Prop :=
  delivered w d fileSize test = some (receiveLoop fileSize w.recvs 0).flatten ∧
      receive w d fileSize test = .returned 0 (store d "received_file.bin"
        (writtenBytes w.written (receiveLoop fileSize w.recvs 0) 0)) ∨
    delivered w d fileSize test = none ∧ receive w d fileSize test = .returned (-1) d

theorem stream_test (w : Surroundings) (d : Directory) (fileSize : BitVec 32)
    (received : receive w d fileSize test = receiveFile w d false fileSize)
    (sent : delivered w d fileSize test =
      if w.socket ∧ w.bind ∧ w.accept ∧ w.create ∧ canWrite (d.lookup "received_file.bin") then
        some (receiveLoop fileSize w.recvs 0).flatten
      else none) : SocketTest w d fileSize test := by
  unfold SocketTest
  rw [received, sent]
  unfold receiveFile
  by_cases open_socket : w.socket = true
  · by_cases bound : w.bind = true
    · by_cases accepted : w.accept = true
      · by_cases created : w.create = true
        · by_cases writable : canWrite (d.lookup "received_file.bin") = true
          · simp [open_socket, bound, accepted, created, writable]
          · simp [open_socket, bound, accepted, created, writable]
        · simp [open_socket, bound, accepted, created]
      · simp [open_socket, bound, accepted]
    · simp [open_socket, bound]
  · simp [open_socket]

theorem dgram_test (w : Surroundings) (d : Directory) (fileSize : BitVec 32)
    (received : receive w d fileSize test = receiveFile w d true fileSize)
    (sent : delivered w d fileSize test = none) : SocketTest w d fileSize test := by
  refine Or.inr ⟨sent, received.trans ?_⟩
  unfold receiveFile
  simp

/-- What the socket tests share: their result is judged by the entry that
`recived.txt` leads to. -/
theorem socket_right_iff (test : Test) (socket : SocketTest w d fileSize test)
    (condition : RightWhen w d fileSize checksum test =
      if Linked d ∧ canRead (d.lookup "recived.txt") ∧ (delivered w d fileSize test).isSome then
        byteSum (writtenBytes w.written (receiveLoop fileSize w.recvs 0) 0) = checksum ↔
          byteSum (receiveLoop fileSize w.recvs 0).flatten = checksum
      else LeftoverSums d checksum ↔
        ∃ bytes, delivered w d fileSize test = some bytes ∧ byteSum bytes = checksum) :
    VerdictRight w d test fileSize checksum ↔ RightWhen w d fileSize checksum test := by
  rw [VerdictRight, condition, serveTransfer]
  rcases socket with ⟨arrived, received⟩ | ⟨nothing, received⟩
  · rw [received, arrived]
    simp only [verdict_equal_iff, Option.isSome_some, and_true, Option.some.injEq,
      exists_eq_left']
    by_cases linked : Linked d
    · by_cases readable : canRead (d.lookup "recived.txt") = true
      · simp only [leftover_linked linked, leftover_stored _ checksum readable, linked, readable,
          and_self, ↓reduceIte]
      · simp only [leftover_linked linked, leftover_unreadable _ checksum readable, readable,
          Bool.false_eq_true, and_false, ↓reduceIte]
    · simp only [leftover_elsewhere linked, linked, false_and, ↓reduceIte]
  · rw [received, nothing]
    simp [verdict_equal_iff]

theorem mmap_right_iff (w : Surroundings) (d : Directory) (fileSize checksum : BitVec 32) :
    VerdictRight w d .mmap fileSize checksum ↔ RightWhen w d fileSize checksum .mmap := by
  unfold VerdictRight serveTransfer receive RightWhen delivered
  by_cases name : w.nameReceived = true
  · simp only [name, not_true_eq_false, ↓reduceIte, true_and, forall_const,
      copyFileFromSharedMemoryMmap]
    cases opened : openTruncated w d "recived.txt" with
    | none => simp [verdict_equal_iff]
    | some emptied =>
      obtain ⟨empty, stored⟩ := opened_leftover opened checksum
      cases source : w.shared with
      | none => simp [verdict_equal_iff, empty]
      | some content =>
        by_cases mapped : w.mapped = true ∧ ¬ fileSize.sle 0 = true
        · have worked : w.mapped = true ∧ ¬ fileSize.sle 0 = true ∧ (some emptied).isSome :=
            ⟨mapped.1, mapped.2, rfl⟩
          simp only [worked, not_true_eq_false, Option.bind_some]
          cases copied : mappedBytes content fileSize.toNat with
          | none => simp
          | some bytes => simp [verdict_equal_iff, stored]
        · -- the file stays empty when nothing can be mapped
          have failed : ¬ w.mapped = true ∨ fileSize.sle 0 = true := by tauto
          have nothing : ¬ (w.mapped = true ∧ ¬ fileSize.sle 0 = true ∧ (some emptied).isSome) := by
            tauto
          simp only [failed, nothing, ↓reduceIte, verdict_equal_iff, empty]
          simp
  · simp [name]

theorem pipe_right_iff (w : Surroundings) (d : Directory) (fileSize checksum : BitVec 32) :
    VerdictRight w d .pipe fileSize checksum ↔ RightWhen w d fileSize checksum .pipe := by
  unfold VerdictRight serveTransfer receive RightWhen delivered
  by_cases name : w.nameReceived = true
  · simp only [name, not_true_eq_false, ↓reduceIte, true_and, forall_const, receiveFileFifo]
    cases opened : openTruncated w d "recived.txt" with
    | none => simp [verdict_equal_iff]
    | some emptied =>
      obtain ⟨empty, stored⟩ := opened_leftover opened checksum
      cases source : w.fifo with
      | none => simp [verdict_equal_iff, empty]
      | some pieces => simp [verdict_equal_iff, stored]
  · simp [name]

/-- For every transport and every working directory, the verdict is right
exactly under `RightWhen`. -/
theorem verdict_right_iff (w : Surroundings) (d : Directory) (test : Test)
    (fileSize checksum : BitVec 32) :
    VerdictRight w d test fileSize checksum ↔ RightWhen w d fileSize checksum test := by
  cases test with
  | ipv4Tcp | ipv6Tcp | udsStream =>
    exact socket_right_iff _ (stream_test w d fileSize rfl rfl) rfl
  | ipv4Udp | ipv6Udp | udsDgram =>
    exact socket_right_iff _ (dgram_test w d fileSize rfl rfl) rfl
  | mmap => exact mmap_right_iff w d fileSize checksum
  | pipe => exact pipe_right_iff w d fileSize checksum

/-- A TCP transfer in which everything succeeds and the single byte 1 arrives. -/
def oneByteArrives : Surroundings :=
  ⟨true, true, true, true, [[1#8]], true, true, none, true, fun _ => 1, none⟩

/-- In an empty directory it is reported as broken. -/
theorem delivered_file_reported_broken :
    ¬ ∀ (w : Surroundings) (d : Directory) (test : Test) (fileSize checksum : BitVec 32),
      VerdictRight w d test fileSize checksum := by
  intro right
  have printed := (right oneByteArrives ⟨fun name => if name = "recived.txt" then 0 else 1, fun _ => none⟩
    .ipv4Tcp 1 1).mpr ⟨[1#8], by decide, by decide⟩
  exact absurd printed (by decide)

end OsCourse.TransferVerdict
