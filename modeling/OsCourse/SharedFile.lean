import OsCourse.SharedName

/-! The mmap test of `stnc.c` from end to end: the client copies `test.txt` to
the shared file, the server copies that to `recived.txt` and judges it. The file
names may stand for the same file. The server opens the name it receives over
that of the test. -/
namespace OsCourse.SharedFile
open Stdio CString ControlMessages FileChecksum TransferVerdict TestSelection SharedName

/-- Which calls of `copyFileToSharedMemoryMmap` the system lets succeed. -/
structure ClientCalls where
  openFrom : Bool
  openShared : Bool
  ftruncate : Bool
  mapFrom : Bool
  mapShared : Bool

/-- `open(filename, O_RDONLY)` also opens a directory, which cannot be mapped. -/
def canOpen : Option Entry → Bool
  | some (.file _ readable _) => readable
  | some .directory => true
  | none => false

/-- `copyFileToSharedMemoryMmap`, `none` when a page behind the file is touched.
The shared file is emptied and filled with zeros before the other one is mapped. -/
def copyFileToSharedMemoryMmap (calls : ClientCalls) (d : Directory)
    (filenameFrom sharedFilename : String) : Option Directory :=
  if ¬ (calls.openFrom ∧ canOpen (d.lookup filenameFrom)) then some d
  else
    let fileSize := getFileSize d filenameFrom
    if ¬ (calls.openShared ∧ canRead (d.lookup sharedFilename) ∧
        canWrite (d.lookup sharedFilename)) then some d
    else
      let d := store d sharedFilename []
      if ¬ calls.ftruncate ∨ fileSize.slt 0 then some d
      else
        let d := store d sharedFilename (List.replicate fileSize.toNat 0#8)
        match d.lookup filenameFrom with
        | some (.file content _ _) =>
          if ¬ calls.mapFrom ∨ fileSize = 0 ∨ ¬ calls.mapShared then some d
          else (mappedBytes content fileSize.toNat).map (store d sharedFilename)
        | _ => some d

/-- `remove(filename)`: the name leads to an empty place from then on. -/
def remove (d : Directory) (filename : String) (vacant : Nat) : Directory :=
  { d with place := Function.update d.place filename vacant }

/-- What `open(filename, O_RDONLY)` and `mmap` find. -/
def contentOf (d : Directory) (filename : String) : Option (List Byte) :=
  match d.lookup filename with
  | some (.file content true _) => some content
  | _ => none

/-- The client's calls and its clock, the server's surroundings and what its
buffer holds at first, and the place `test.txt` leads to if the client has
removed it before the server opens the shared file. -/
structure Test where
  calls : ClientCalls
  sec : Nat
  usec : Nat
  sec_fits : sec < 10 ^ 12
  usec_fits : usec < 10 ^ 6
  messageBuffer : List Byte
  server : Surroundings
  removed : Option Nat

/-- What the client announces. -/
def Test.announced (t : Test) (filesize checksum : BitVec 32) : Announcement :=
  ⟨filesize, checksum, t.sec, t.usec, .mmap, t.sec_fits, t.usec_fits⟩

/-- The directory as the client leaves it. -/
def Test.leave (t : Test) (d : Directory) : Directory :=
  match t.removed with
  | none => d
  | some vacant => remove d "test.txt" vacant

/-- The client's part behind its announcement. Where `main` has taken `param` for
a word of its own there is no name, `open` fails and `strlen` ends the client. -/
def Test.runClient (t : Test) (d : Directory) (param : String) : Option Directory :=
  match filenameOf (utf8 param) with
  | none => some d
  | some _ => (copyFileToSharedMemoryMmap t.calls d "test.txt" param).map t.leave

/-- The name of a file from its bytes. -/
def nameOf (bytes : List Byte) : Option String :=
  String.fromUTF8? ⟨(bytes.map UInt8.ofBitVec).toArray⟩

/-- The lines of the server that is not quiet, when each message of the client
arrives whole. -/
def Test.run (t : Test) (d : Directory) (param : String) : Option (List Line) := do
  let filesize := getFileSize d "test.txt"
  let checksum ← calculateChecksum d "test.txt"
  let messages := clientMessages (t.announced filesize checksum) (utf8 param)
  let left ← t.runClient d param
  let heard ← takeAnnouncement false t.messageBuffer messages
  let opened ← (openedName messages).bind nameOf
  let emptied := (openTruncated t.server left "recived.txt").getD left
  some (serveTransfer false { t.server with shared := contentOf emptied opened } left .mmap
    heard.fileSize heard.checksum)

/-- The server opens the name the client was given: it covers the four bytes of
`mmap`, fits the buffer and is no word of `main`'s own. -/
structure Named (param : String) : Prop where
  long : 4 ≤ (utf8 param).length
  fits : (utf8 param).length ≤ 1023
  clean : NUL ∉ utf8 param
  other : param ≠ "dgram" ∧ param ≠ "stream"

/-- All calls work, on a file of some size that an `int` can hold, nothing keeps
the shared file and `recived.txt` from being written, and `test.txt` and
`recived.txt` are two files. -/
structure Works (t : Test) (d : Directory) (sharedFilename : String) (content : List Byte) :
    Prop where
  named : Named sharedFilename
  source : ∃ writable, d.lookup "test.txt" = some (.file content true writable)
  some_byte : content ≠ []
  size : content.length < 2 ^ 31
  calls : t.calls = ⟨true, true, true, true, true⟩
  shared : canRead (d.lookup sharedFilename) ∧ canWrite (d.lookup sharedFilename)
  received : canRead (d.lookup "recived.txt") ∧ canWrite (d.lookup "recived.txt")
  server : t.server.nameReceived ∧ t.server.openTo ∧ t.server.mapped
  written : content.length ≤ t.server.written 0
  removed : ∀ vacant ∈ t.removed, d.entry vacant = none ∧ ∀ filename, d.place filename ≠ vacant
  apart : d.place "test.txt" ≠ d.place "recived.txt"

/-! ## Files behind names -/

theorem lookup_stored (d : Directory) (filename other : String) (content : List Byte) :
    (store d filename content).lookup other =
      if d.place other = d.place filename then some (rewritten content (d.lookup filename))
      else d.lookup other := by
  unfold Directory.lookup store
  by_cases same : d.place other = d.place filename
  · simp [same, Directory.lookup]
  · simp [same]

@[simp] theorem place_stored (d : Directory) (filename other : String) (content : List Byte) :
    (store d filename content).place other = d.place other := rfl

@[simp] theorem rewritten_twice (content other : List Byte) (entry : Option Entry) :
    rewritten content (some (rewritten other entry)) = rewritten content entry := by
  cases entry with
  | none => rfl
  | some found => cases found <;> rfl

@[simp] theorem can_write_rewritten (content : List Byte) (writable : canWrite entry = true) :
    canWrite (some (rewritten content entry)) = true := by
  cases entry with
  | none => rfl
  | some found =>
    cases found with
    | file old readable allowed => exact writable
    | directory => rfl

/-- What is stored last is what is found. -/
theorem stored_twice (d : Directory) (filename : String) (content other : List Byte) :
    store (store d filename other) filename content = store d filename content := by
  have found : (store d filename other).lookup filename = some (rewritten other (d.lookup filename)) :=
    lookup_store d filename other
  unfold store at found ⊢
  simp only [found, rewritten_twice, Function.update_idem]

/-- The mapping of a whole file is its content. -/
theorem mapped_whole (content : List Byte) : mappedBytes content content.length = some content := by
  have pages : content.length ≤ (content.length + (PAGE_SIZE - 1)) / PAGE_SIZE * PAGE_SIZE := by
    unfold PAGE_SIZE
    omega
  rw [mappedBytes, if_pos pages, List.take_left']
  rfl

theorem mapped_empty (some_byte : 0 < fileSize) : mappedBytes [] fileSize = none := by
  apply if_neg
  simp only [List.length_nil, PAGE_SIZE]
  omega

theorem content_found (found : d.lookup filename = some (rewritten content entry))
    (readable : canRead entry = true) : contentOf d filename = some content := by
  cases entry with
  | none => simp only [contentOf, found, rewritten]
  | some old =>
    cases old with
    | directory => simp only [contentOf, found, rewritten]
    | file former allowed writable =>
      obtain rfl : allowed = true := readable
      simp only [contentOf, found, rewritten]

/-! ## The client's side -/

/-- What the client leaves in the shared file. Where that is `test.txt` itself,
the zeros are copied over themselves. -/
def copied (d : Directory) (sharedFilename : String) (content : List Byte) : List Byte :=
  if d.place "test.txt" = d.place sharedFilename then List.replicate content.length 0#8 else content

theorem copied_length (d : Directory) (sharedFilename : String) (content : List Byte) :
    (copied d sharedFilename content).length = content.length := by
  unfold copied
  split
  · exact List.length_replicate
  · rfl

theorem file_size (works : Works t d sharedFilename content) :
    getFileSize d "test.txt" = BitVec.ofNat 32 content.length := by
  obtain ⟨writable, there⟩ := works.source
  simp only [getFileSize, there]

/-- The size as the `int` the calls are given. -/
theorem size_positive (some_byte : content ≠ []) (size : content.length < 2 ^ 31) :
    (BitVec.ofNat 32 content.length).toNat = content.length ∧
      (BitVec.ofNat 32 content.length).slt 0 = false ∧
      (BitVec.ofNat 32 content.length).sle 0 = false ∧ BitVec.ofNat 32 content.length ≠ 0 := by
  have positive : 0 < content.length := List.length_pos_iff.mpr some_byte
  have number : (BitVec.ofNat 32 content.length).toNat = content.length := by
    simp only [BitVec.toNat_ofNat]
    omega
  have int : (BitVec.ofNat 32 content.length).toInt = content.length := by
    simp only [BitVec.toInt_eq_toNat_cond, number]
    omega
  refine ⟨number, ?_, ?_, fun zero => ?_⟩
  · simp only [BitVec.slt, int, decide_eq_false_iff_not]
    simp
  · simp only [BitVec.sle, int, decide_eq_false_iff_not]
    simp only [BitVec.ofNat_eq_ofNat, BitVec.toInt_zero]
    omega
  · simp only [zero, BitVec.ofNat_eq_ofNat, BitVec.toNat_ofNat, Nat.zero_mod] at number
    omega

theorem client_copies (works : Works t d sharedFilename content) :
    copyFileToSharedMemoryMmap t.calls d "test.txt" sharedFilename =
      some (store d sharedFilename (copied d sharedFilename content)) := by
  obtain ⟨writable, there⟩ := works.source
  obtain ⟨number, negative, -, zero⟩ := size_positive works.some_byte works.size
  obtain ⟨readable, writes⟩ := works.shared
  have mapped : ∃ allowed, (store d sharedFilename (List.replicate content.length 0#8)).lookup
      "test.txt" = some (.file (copied d sharedFilename content) true allowed) := by
    unfold copied
    rw [lookup_stored]
    by_cases same : d.place "test.txt" = d.place sharedFilename
    · have shared : d.lookup sharedFilename = some (.file content true writable) := by
        simp only [Directory.lookup] at there ⊢
        exact same ▸ there
      exact ⟨writable, by simp only [same, shared, ↓reduceIte, rewritten]⟩
    · exact ⟨writable, by simp only [same, there, ↓reduceIte]⟩
  obtain ⟨allowed, source⟩ := mapped
  have pages := mapped_whole (copied d sharedFilename content)
  rw [copied_length] at pages
  simp only [copyFileToSharedMemoryMmap, works.calls, there, canOpen, readable, writes,
    file_size works, number, negative, stored_twice, source, zero, pages, and_self, or_self,
    not_true_eq_false, Bool.false_eq_true, ↓reduceIte, Option.map_some]

/-- `main` takes such a parameter for a name. -/
theorem named_given (named : Named param) : filenameOf (utf8 param) = some (utf8 param) := by
  have dgram : ascii "dgram" = utf8 "dgram" := (utf8_data "dgram").symm
  have stream : ascii "stream" = utf8 "stream" := (utf8_data "stream").symm
  have long := named.long
  unfold filenameOf
  split_ifs with tcp udp is_dgram is_stream
  · exact absurd (tcp ▸ long) (by decide)
  · exact absurd (udp ▸ long) (by decide)
  · exact absurd ((utf8_eq_iff _ _).mp (is_dgram.trans dgram)) named.other.1
  · exact absurd ((utf8_eq_iff _ _).mp (is_stream.trans stream)) named.other.2
  · rfl

/-- The client copies the file under the name it was given and goes on. -/
theorem client_leaves (works : Works t d sharedFilename content) :
    t.runClient d sharedFilename =
      some (t.leave (store d sharedFilename (copied d sharedFilename content))) := by
  rw [Test.runClient, named_given works.named, client_copies works]
  rfl

theorem name_of_utf8 (s : String) : nameOf (utf8 s) = some s := by
  have bytes : (⟨((utf8 s).map UInt8.ofBitVec).toArray⟩ : ByteArray) = s.toByteArray := by
    rw [utf8_data, List.map_map]
    have same : UInt8.ofBitVec ∘ UInt8.toBitVec = id := rfl
    rw [same, List.map_id, Array.toArray_toList]
    rfl
  unfold nameOf String.fromUTF8?
  rw [bytes, dif_pos s.isValidUTF8]
  rfl

/-- The server hears the numbers and the name as the client has them. -/
theorem server_hears (t : Test) (filesize checksum : BitVec 32) (named : Named sharedFilename) :
    (∃ heard, takeAnnouncement false t.messageBuffer
        (clientMessages (t.announced filesize checksum) (utf8 sharedFilename)) = some heard ∧
      heard.fileSize = filesize ∧ heard.checksum = checksum) ∧
    (openedName (clientMessages (t.announced filesize checksum) (utf8 sharedFilename))).bind nameOf =
      some sharedFilename := by
  constructor
  · have read := texts_taken t.messageBuffer Test.mmap.message (t.announced filesize checksum)
    exact ⟨_, read, rfl, rfl⟩
  · have covered : Test.mmap.name.drop (utf8 sharedFilename).length = [] :=
      List.drop_eq_nil_iff.mpr named.long
    have opens := opened_name (t.announced filesize checksum) (Or.inl rfl) named.clean named.fits
    rw [named_given named] at opens
    simp only [Test.announced, covered, List.append_nil] at opens
    rw [Test.announced, opens, Option.bind_some, name_of_utf8]

/-! ## The server's side -/

/-- The verdict over a mapping that works. -/
theorem mmap_printed (w : Surroundings) (checksum : BitVec 32) (opened : openTruncated w d "recived.txt" = some emptied)
    (heard : w.nameReceived) (mapped : w.mapped) (positive : fileSize.sle 0 = false) :
    Line.equal ∈ serveTransfer false w d .mmap fileSize checksum ↔
      match w.shared with
      | none => checksum = 0
      | some content => ∃ bytes, mappedBytes content fileSize.toNat = some bytes ∧
          byteSum (bytes.take (w.written 0)) = checksum := by
  obtain ⟨empty, stored⟩ := opened_leftover opened checksum
  unfold serveTransfer receive
  simp only [heard, not_true_eq_false, ↓reduceIte, copyFileFromSharedMemoryMmap, opened]
  cases source : w.shared with
  | none => simp only [verdict_equal_iff, empty]
  | some content =>
    simp only [mapped, positive, not_true_eq_false, Bool.false_eq_true, or_self, ↓reduceIte]
    cases pages : mappedBytes content fileSize.toNat with
    | none => simp
    | some bytes => simp [verdict_equal_iff, stored]

theorem byte_sum_zeros (n : Nat) : byteSum (List.replicate n 0#8) = 0 := by
  unfold byteSum
  induction n with
  | zero => rfl
  | succ n ih =>
    have nothing : widen 0#8 = 0 := by decide
    simp only [List.replicate_succ, List.map_cons, List.sum_cons, ih, nothing, add_zero]

/-- Removing `test.txt` changes nothing for the other names. -/
theorem leave_lookup (t : Test) (d : Directory) (other : filename ≠ "test.txt") :
    (t.leave d).place filename = d.place filename ∧ (t.leave d).lookup filename = d.lookup filename := by
  unfold Test.leave
  cases t.removed with
  | none => exact ⟨rfl, rfl⟩
  | some vacant =>
    have same : (remove d "test.txt" vacant).place filename = d.place filename :=
      Function.update_of_ne other _ _
    exact ⟨same, congrArg d.entry same⟩

/-- `recived.txt` can be opened whatever has been stored and removed by then. -/
theorem server_opens (works : Works t d sharedFilename content) (data : List Byte) :
    openTruncated t.server (t.leave (store d sharedFilename data)) "recived.txt" =
      some (store (t.leave (store d sharedFilename data)) "recived.txt" []) := by
  have allowed : canRead ((store d sharedFilename data).lookup "recived.txt") = true ∧
      canWrite ((store d sharedFilename data).lookup "recived.txt") = true := by
    rw [lookup_stored]
    split
    · rw [can_read_rewritten]
      exact ⟨works.shared.1, can_write_rewritten data works.shared.2⟩
    · exact works.received
  have found : (t.leave (store d sharedFilename data)).lookup "recived.txt" =
      (store d sharedFilename data).lookup "recived.txt" :=
    (leave_lookup t (store d sharedFilename data) (by decide)).2
  unfold openTruncated
  rw [found, if_pos ⟨works.server.2.1, allowed⟩]

/-- What the server finds under the name of the shared file once `recived.txt`
is empty. -/
theorem shared_found (works : Works t d sharedFilename content) (data : List Byte) :
    contentOf (store (t.leave (store d sharedFilename data)) "recived.txt" []) sharedFilename =
      if t.removed.isSome ∧ sharedFilename = "test.txt" then none
      else if d.place sharedFilename = d.place "recived.txt" then some [] else some data := by
  have other : (t.leave (store d sharedFilename data)).place "recived.txt" = d.place "recived.txt" :=
    (leave_lookup t (store d sharedFilename data) (by decide)).1
  by_cases gone : t.removed.isSome ∧ sharedFilename = "test.txt"
  · -- the name leads to the vacant place
    obtain ⟨removed, rfl⟩ := gone
    obtain ⟨vacant, at_place⟩ := Option.isSome_iff_exists.mp removed
    obtain ⟨empty, unknown⟩ := works.removed vacant at_place
    have leads : (t.leave (store d "test.txt" data)).place "test.txt" = vacant := by
      simp only [Test.leave, at_place, remove, Function.update_self]
    have nothing : (store (t.leave (store d "test.txt" data)) "recived.txt" []).lookup "test.txt" =
        none := by
      rw [lookup_stored, leads, other, if_neg (Ne.symm (unknown "recived.txt"))]
      unfold Directory.lookup
      rw [leads]
      simp only [Test.leave, at_place]
      have elsewhere : (store d "test.txt" data).entry vacant = d.entry vacant :=
        Function.update_of_ne (Ne.symm (unknown "test.txt")) _ _
      exact elsewhere.trans empty
    simp only [removed, and_self, ↓reduceIte, contentOf, nothing]
  · have kept : (t.leave (store d sharedFilename data)).place sharedFilename =
          d.place sharedFilename ∧
        (t.leave (store d sharedFilename data)).lookup sharedFilename =
          some (rewritten data (d.lookup sharedFilename)) := by
      by_cases own : sharedFilename = "test.txt"
      · have still : t.removed = none := by
          by_contra removed
          exact gone ⟨Option.isSome_iff_ne_none.mpr removed, own⟩
        simp only [Test.leave, still]
        exact ⟨rfl, lookup_store d sharedFilename data⟩
      · obtain ⟨place, found⟩ := leave_lookup t (store d sharedFilename data) own
        exact ⟨place, found.trans (lookup_store d sharedFilename data)⟩
    rw [if_neg gone]
    by_cases same : d.place sharedFilename = d.place "recived.txt"
    · have emptied : (store (t.leave (store d sharedFilename data)) "recived.txt" []).lookup
          sharedFilename = some (rewritten [] (d.lookup "recived.txt")) := by
        have under : (t.leave (store d sharedFilename data)).lookup "recived.txt" =
            some (rewritten data (d.lookup "recived.txt")) := by
          have shared : d.lookup sharedFilename = d.lookup "recived.txt" := congrArg d.entry same
          rw [← shared, ← kept.2]
          unfold Directory.lookup
          rw [kept.1, other, same]
        rw [lookup_stored, kept.1, other, if_pos same, under, rewritten_twice]
      rw [if_pos same]
      exact content_found emptied works.received.1
    · have untouched : (store (t.leave (store d sharedFilename data)) "recived.txt" []).lookup
          sharedFilename = some (rewritten data (d.lookup sharedFilename)) := by
        rw [lookup_stored, kept.1, other, if_neg same]
        exact kept.2
      rw [if_neg same]
      exact content_found untouched works.shared.1

/-- The client's copy, what it leaves, and the server on that. -/
theorem run_serves {d : Directory} (works : Works t d sharedFilename content) :
    t.run d sharedFilename = some (serveTransfer false
      { t.server with shared := contentOf (store (t.leave (store d sharedFilename
        (copied d sharedFilename content))) "recived.txt" []) sharedFilename }
      (t.leave (store d sharedFilename (copied d sharedFilename content))) .mmap
      (BitVec.ofNat 32 content.length) (byteSum content)) := by
  obtain ⟨writable, there⟩ := works.source
  have opened := server_opens works (copied d sharedFilename content)
  obtain ⟨⟨heard, takes, size, sum⟩, name⟩ :=
    server_hears t (BitVec.ofNat 32 content.length) (byteSum content) works.named
  simp only [Test.run, checksum_file content there, client_leaves works, opened, file_size works,
    takes, name, size, sum, Option.bind_eq_bind, Option.bind_some, Option.getD_some]

/-- A test in which every call works is reported as right exactly if the shared
file is another file than `recived.txt`, and is not `test.txt` itself unless the
bytes of that add up to nothing. Whether the client has removed `test.txt` by
then makes no difference. -/
theorem mmap_test_right_iff (t : Test) (d : Directory) (sharedFilename : String)
    (content : List Byte) (works : Works t d sharedFilename content) :
    (∃ lines, t.run d sharedFilename = some lines ∧ Line.equal ∈ lines) ↔
      d.place sharedFilename ≠ d.place "recived.txt" ∧
        (d.place sharedFilename = d.place "test.txt" → byteSum content = 0) := by
  obtain ⟨number, -, positive, -⟩ := size_positive works.some_byte works.size
  have opened := server_opens works (copied d sharedFilename content)
  have found := shared_found works (copied d sharedFilename content)
  have printed (checksum : BitVec 32) := mmap_printed
    { t.server with shared := contentOf (store (t.leave (store d sharedFilename
      (copied d sharedFilename content))) "recived.txt" []) sharedFilename }
    checksum opened works.server.1 works.server.2.2 positive
  simp only [run_serves works, Option.some.injEq, exists_eq_left']
  rw [printed]
  simp only [found, number]
  by_cases gone : t.removed.isSome ∧ sharedFilename = "test.txt"
  · obtain ⟨removed, rfl⟩ := gone
    simp only [removed, and_self, ↓reduceIte, forall_const]
    constructor
    · exact fun zero => ⟨works.apart, zero⟩
    · exact fun right => right.2
  · by_cases same : d.place sharedFilename = d.place "recived.txt"
    · have positive : 0 < content.length := List.length_pos_iff.mpr works.some_byte
      simp only [gone, same, ↓reduceIte, mapped_empty positive, ne_eq, not_true_eq_false, false_and,
        iff_false]
      rintro ⟨bytes, mapped, -⟩
      cases mapped
    · have pages := mapped_whole (copied d sharedFilename content)
      have whole : (copied d sharedFilename content).take (t.server.written 0) =
          copied d sharedFilename content := by
        apply List.take_of_length_le
        rw [copied_length]
        exact works.written
      rw [copied_length] at pages
      simp only [gone, same, ↓reduceIte, pages, Option.some.injEq, exists_eq_left', whole, ne_eq,
        not_false_eq_true, true_and]
      by_cases own : d.place "test.txt" = d.place sharedFilename
      · simp only [copied, own, ↓reduceIte, byte_sum_zeros, forall_const]
        exact eq_comm
      · simp only [copied, own, ↓reduceIte, true_iff]
        exact fun back => absurd back.symm own

/-- Three bytes under `test.txt` and nothing else. -/
def threeBytes : Directory :=
  ⟨fun name => if name = "test.txt" then 1 else if name = "recived.txt" then 2 else 3,
    fun place => if place = 1 then some (.file [1#8, 2#8, 3#8] true true) else none⟩

/-- A test in which the client is done before the server opens the file. -/
def clientFirst : Test :=
  ⟨⟨true, true, true, true, true⟩, mappedTest.sec, mappedTest.usec, mappedTest.sec_fits,
    mappedTest.usec_fits, cleared,
    ⟨false, false, false, false, [], true, true, none, true, fun _ => 3, none⟩, none⟩

theorem three_bytes_right :
    (∃ lines, clientFirst.run threeBytes "shared" = some lines ∧ Line.equal ∈ lines) ↔
      threeBytes.place "shared" ≠ threeBytes.place "recived.txt" ∧
        (threeBytes.place "shared" = threeBytes.place "test.txt" →
          byteSum [1#8, 2#8, 3#8] = 0) := by
  have shared : utf8 "shared" = ascii "shared" := utf8_data "shared"
  have named : Named "shared" := by
    constructor
    · exact shared ▸ by decide
    · exact shared ▸ by decide
    · exact shared ▸ by decide
    · decide
  apply mmap_test_right_iff
  exact ⟨named, ⟨true, rfl⟩, List.cons_ne_nil _ _, by decide, rfl, ⟨rfl, rfl⟩, ⟨rfl, rfl⟩,
    ⟨rfl, rfl, rfl⟩, Nat.le_refl 3, nofun, by decide⟩

end OsCourse.SharedFile
