import OsCourse.CInt
import OsCourse.ControlMessages

/-! `sendFile` of `stnc.c`. Each turn of its loop reads the file on from where
the last one stopped and asks `send` for the bytes read. When `send` accepts
fewer of them, the rest is neither sent again nor read again. -/
namespace OsCourse.SendFile
open Stdio CInt ControlMessages

/-- What becomes of the calls in front of the loop. -/
structure Setup where
  fopen : Bool
  socket : Bool
  inet_pton : Bool
  connect : Bool
  deriving DecidableEq, Repr

def Setup.done (w : Setup) : Bool := w.fopen && w.socket && w.inet_pton && w.connect

/-- The results of `fread` up to the end of the file. -/
structure Reading (content : List Byte) where
  pieces : List (List Byte)
  whole : pieces.flatten = content
  some_byte : ∀ buffer ∈ pieces, buffer ≠ []
  asked : ∀ buffer ∈ pieces, buffer.length ≤ BUFFER_SIZE

/-- What `send` returns for the bytes it is asked to send, call by call. -/
structure Connection where
  send : (i requested : Nat) → Int
  counts : ∀ i requested, 0 < requested →
    send i requested < 0 ∨ 1 ≤ send i requested ∧ send i requested ≤ requested

/-- How `sendFile` ends. -/
inductive SendEnd where
  /-- at the success message, which `quiet` suppresses -/
  | sent (accepted : List Byte)
  /-- with one of its error messages -/
  | failed
  /-- `totalBytesSent` leaves `int` -/
  | overflow
  /-- a negative number of bytes is asked for, which `size_t` takes for a huge one -/
  | wild
  deriving DecidableEq, Repr

def getMinimum (a b : Int) : Int := if a < b then a else b

/-- The loop of `sendFile`, with the results of `fread` still to come. Behind
them it returns zero. -/
def sendLoop (send : Nat → Nat → Int) (fileSize : Int) :
    (pieces : List (List Byte)) → (i : Nat) → (totalBytesSent : Int) → (accepted : List Byte) →
      SendEnd
  | [], _, _, accepted => .sent accepted
  | buffer :: pieces, i, totalBytesSent, accepted =>
    if totalBytesSent < fileSize then
      let bytesRead : Int := buffer.length
      let bytesRemaining := narrow 32 (fileSize - totalBytesSent)
      let bytesToSend := getMinimum bytesRead bytesRemaining
      if bytesToSend < 0 then .wild
      else
        let bytesSent := send i bytesToSend.toNat
        if bytesSent < 0 then .failed
        else
          match checked 32 (totalBytesSent + bytesSent) with
          | none => .overflow
          | some totalBytesSent =>
            sendLoop send fileSize pieces (i + 1) totalBytesSent
              (accepted ++ buffer.take bytesSent.toNat)
    else .sent accepted

def sendFile (w : Setup) (reading : Reading content) (connection : Connection) : SendEnd :=
  if ¬ w.fopen then .failed
  else if ¬ w.socket then .failed
  else if ¬ w.inet_pton then .failed
  else if ¬ w.connect then .failed
  else sendLoop connection.send content.length reading.pieces 0 0 []

/-! ## The property and its condition -/

/-- With the success message the bytes accepted are the file. -/
def SendsFile (w : Setup) (reading : Reading content) (connection : Connection) : Prop :=
  ∀ accepted, sendFile w reading connection = .sent accepted → accepted = content

/-- Every `send` accepts all it is asked to. -/
def AcceptsAll (send : Nat → Nat → Int) (turns : List (List Byte × Nat)) : Prop :=
  ∀ turn ∈ turns, send turn.2 turn.1.length = turn.1.length

/-- Some `send` returns an error. -/
def Fails (send : Nat → Nat → Int) (turns : List (List Byte × Nat)) : Prop :=
  ∃ turn ∈ turns, send turn.2 turn.1.length < 0

instance (send : Nat → Nat → Int) (turns : List (List Byte × Nat)) : Decidable (Fails send turns) :=
  inferInstanceAs (Decidable (∃ turn ∈ turns, _))

/-! ## The loop -/

/-- What is accepted of the bytes read when no `send` fails. -/
def accepts (send : Nat → Nat → Int) (turns : List (List Byte × Nat)) : List Byte :=
  (turns.map fun turn => turn.1.take (send turn.2 turn.1.length).toNat).flatten

section Loop
variable (connection : Connection) {fileSize : Int} (small : fileSize < 2 ^ 31)
include small

/-- The bytes not yet read are never more than those not yet accepted, so the
request is for all that was read. -/
theorem send_loop_step (pieces : List (List Byte)) (i : Nat) (accepted : List Byte)
    (some_byte : buffer ≠ []) (start : 0 ≤ totalBytesSent)
    (room : totalBytesSent + buffer.length ≤ fileSize) :
    sendLoop connection.send fileSize (buffer :: pieces) i totalBytesSent accepted =
      if connection.send i buffer.length < 0 then .failed
      else
        sendLoop connection.send fileSize pieces (i + 1)
          (totalBytesSent + connection.send i buffer.length)
          (accepted ++ buffer.take (connection.send i buffer.length).toNat) := by
  have positive := List.length_pos_iff.mpr some_byte
  have counts := connection.counts i buffer.length positive
  have remaining : narrow 32 (fileSize - totalBytesSent) = fileSize - totalBytesSent :=
    narrow_int (by omega) (by omega)
  have request : getMinimum buffer.length (fileSize - totalBytesSent) = buffer.length := by
    unfold getMinimum
    split <;> omega
  have asked : ¬ (buffer.length : Int) < 0 := by omega
  have more : totalBytesSent < fileSize := by omega
  rw [sendLoop, if_pos more]
  simp only [remaining, request, if_neg asked, Int.toNat_natCast]
  by_cases error : connection.send i buffer.length < 0
  · rw [if_pos error, if_pos error]
  · have sum : checked 32 (totalBytesSent + connection.send i buffer.length) =
        some (totalBytesSent + connection.send i buffer.length) :=
      checked_int (by omega) (by omega)
    rw [if_neg error, if_neg error, sum]

/-- The loop goes through all pieces of the file, until a `send` fails. -/
theorem send_loop_eq (pieces : List (List Byte)) (i : Nat) (totalBytesSent : Int)
    (accepted : List Byte) (some_byte : ∀ buffer ∈ pieces, buffer ≠ []) (start : 0 ≤ totalBytesSent)
    (room : totalBytesSent + pieces.flatten.length ≤ fileSize) :
    sendLoop connection.send fileSize pieces i totalBytesSent accepted =
      if Fails connection.send (pieces.zipIdx i) then .failed
      else .sent (accepted ++ accepts connection.send (pieces.zipIdx i)) := by
  induction pieces generalizing i totalBytesSent accepted with
  | nil => simp [sendLoop, Fails, accepts]
  | cons buffer pieces ih =>
    have first := some_byte buffer List.mem_cons_self
    have counts := connection.counts i buffer.length (List.length_pos_iff.mpr first)
    simp only [List.flatten_cons, List.length_append, Nat.cast_add] at room
    rw [send_loop_step connection small pieces i accepted first start (by omega), List.zipIdx_cons]
    by_cases error : connection.send i buffer.length < 0
    · have fails : Fails connection.send ((buffer, i) :: pieces.zipIdx (i + 1)) :=
        ⟨_, List.mem_cons_self, error⟩
      rw [if_pos error, if_pos fails]
    · have later : Fails connection.send ((buffer, i) :: pieces.zipIdx (i + 1)) ↔
          Fails connection.send (pieces.zipIdx (i + 1)) := by
        simp [Fails, error]
      have next := ih (i + 1) (totalBytesSent + connection.send i buffer.length)
        (accepted ++ buffer.take (connection.send i buffer.length).toNat)
        (fun other member => some_byte other (List.mem_cons_of_mem _ member))
        (by omega) (by omega)
      rw [if_neg error, next]
      simp only [later, accepts, List.map_cons, List.flatten_cons, List.append_assoc]

end Loop

/-! ## The file as it is sent -/

/-- What is accepted is the file only when nothing of any piece is left. -/
theorem accepts_whole_iff (connection : Connection) (pieces : List (List Byte)) (i : Nat)
    (some_byte : ∀ buffer ∈ pieces, buffer ≠ [])
    (works : ¬ Fails connection.send (pieces.zipIdx i)) :
    (accepts connection.send (pieces.zipIdx i)).length ≤ pieces.flatten.length ∧
      (accepts connection.send (pieces.zipIdx i) = pieces.flatten ↔
        AcceptsAll connection.send (pieces.zipIdx i)) := by
  induction pieces generalizing i with
  | nil => simp [accepts, AcceptsAll]
  | cons buffer pieces ih =>
    have first := some_byte buffer List.mem_cons_self
    have positive := List.length_pos_iff.mpr first
    have counts := connection.counts i buffer.length positive
    rw [List.zipIdx_cons] at works ⊢
    have now : ¬ connection.send i buffer.length < 0 :=
      fun error => works ⟨_, List.mem_cons_self, error⟩
    obtain ⟨shorter, rest⟩ := ih (i + 1)
      (fun other member => some_byte other (List.mem_cons_of_mem _ member))
      (fun fails => by
        obtain ⟨turn, member, error⟩ := fails
        exact works ⟨turn, List.mem_cons_of_mem _ member, error⟩)
    have split : accepts connection.send ((buffer, i) :: pieces.zipIdx (i + 1)) =
        buffer.take (connection.send i buffer.length).toNat ++
          accepts connection.send (pieces.zipIdx (i + 1)) := by
      simp [accepts]
    have taken : (buffer.take (connection.send i buffer.length).toNat).length =
        (connection.send i buffer.length).toNat := by
      rw [List.length_take]
      omega
    simp only [split, List.flatten_cons, List.length_append, taken]
    refine ⟨by omega, ?_⟩
    have both : AcceptsAll connection.send ((buffer, i) :: pieces.zipIdx (i + 1)) ↔
        connection.send i buffer.length = buffer.length ∧
          AcceptsAll connection.send (pieces.zipIdx (i + 1)) := List.forall_mem_cons
    rw [both, ← rest]
    constructor
    · intro same
      have lengths := congrArg List.length same
      simp only [List.length_append, taken] at lengths
      have full : connection.send i buffer.length = buffer.length := by omega
      rw [full, Int.toNat_natCast, List.take_length] at same
      exact ⟨full, List.append_cancel_left same⟩
    · rintro ⟨full, same⟩
      rw [full, Int.toNat_natCast, List.take_length, same]

theorem send_file_eq (w : Setup) (reading : Reading content) (connection : Connection)
    (small : content.length < 2 ^ 31) :
    sendFile w reading connection =
      if w.done = false ∨ Fails connection.send reading.pieces.zipIdx then .failed
      else .sent (accepts connection.send reading.pieces.zipIdx) := by
  have fits : (content.length : Int) < 2 ^ 31 := by omega
  have loop := send_loop_eq connection fits reading.pieces 0 0 [] reading.some_byte le_rfl (by
    rw [reading.whole]
    omega)
  rw [sendFile, loop]
  obtain ⟨fopen, socket, inet_pton, connect⟩ := w
  cases fopen <;> cases socket <;> cases inet_pton <;> cases connect <;> simp [Setup.done]

/-- The bytes accepted are the file exactly when no `send` stops short, or when
the success message is not reached. -/
theorem send_file_iff (w : Setup) (reading : Reading content) (connection : Connection)
    (small : content.length < 2 ^ 31) :
    SendsFile w reading connection ↔
      (w.done = true → AcceptsAll connection.send reading.pieces.zipIdx ∨
        Fails connection.send reading.pieces.zipIdx) := by
  unfold SendsFile
  rw [send_file_eq w reading connection small]
  by_cases stops : w.done = false ∨ Fails connection.send reading.pieces.zipIdx
  · rw [if_pos stops]
    refine iff_of_true nofun fun ready => ?_
    rcases stops with unready | fails
    · rw [ready] at unready
      cases unready
    · exact Or.inr fails
  · rw [if_neg stops]
    obtain ⟨ready, works⟩ := not_or.mp stops
    rw [Bool.not_eq_false] at ready
    have whole := (accepts_whole_iff connection reading.pieces 0 reading.some_byte works).2
    rw [reading.whole] at whole
    simp only [SendEnd.sent.injEq, forall_eq', whole, ready, works, or_false, forall_const]

/-- A read of the whole file at once. -/
def readAtOnce (content : List Byte) (some_byte : content ≠ []) (asked : content.length ≤ BUFFER_SIZE) :
    Reading content where
  pieces := [content]
  whole := by simp
  some_byte := by simpa using some_byte
  asked := by simpa using asked

/-- A connection with room for `n` bytes at each `send`. -/
def roomFor (n : Nat) (some_room : 0 < n) : Connection where
  send _ requested := min n requested
  counts _ requested positive := by omega

theorem send_file_iff_at :
    SendsFile ⟨true, true, true, true⟩ (readAtOnce [0x61, 0x62] nofun (by decide))
        (roomFor 2 (by omega)) :=
  (send_file_iff ⟨true, true, true, true⟩ (readAtOnce [0x61, 0x62] nofun (by decide))
    (roomFor 2 (by omega)) (by decide)).mpr fun _ => Or.inl (by
      intro turn member
      cases List.mem_singleton.mp member
      rfl)

/-- Of a file of two bytes the first is sent alone, and the message is the same. -/
theorem short_send_skips :
    ¬ ∀ (w : Setup) (content : List Byte) (reading : Reading content) (connection : Connection),
      content.length < 2 ^ 31 → SendsFile w reading connection := by
  intro sends
  have whole := sends ⟨true, true, true, true⟩ [0x61, 0x62]
    (readAtOnce [0x61, 0x62] nofun (by decide)) (roomFor 1 (by omega)) (by decide) [0x61] (by decide)
  exact absurd whole (by decide)

end OsCourse.SendFile
