import OsCourse.TestSelection

/-! The name of the shared file or FIFO in a test of `stnc.c`. The client sends
it without a terminator, and the server receives it over the name of the test
and writes no terminator behind it. -/
namespace OsCourse.SharedName
open Stdio CString ControlMessages QuietMode TestSelection

/-- The chain of `main` on `param`: the bytes `filename` points to, if any. -/
def filenameOf (param : List Byte) : Option (List Byte) :=
  if param = ascii "tcp" then none
  else if param = ascii "udp" then none
  else if param = ascii "dgram" then none
  else if param = ascii "stream" then none
  else some param

/-- What a client sends in a test with a shared file. Without a name it dies in `strlen`. -/
def clientMessages (a : Announcement) (param : List Byte) : List (List Byte) :=
  [a.filesizeStr, a.checksumStr, a.startTimeStr, a.test.message] ++ (filenameOf param).toList

/-- `recv` into `messageBuffer`, with nothing written behind the bytes received.
The end of the stream leaves the buffer as it is. -/
def recvOver (messageBuffer chunk : List Byte) : List Byte :=
  chunk ++ messageBuffer.drop chunk.length

/-- The string `run_server` hands to `copyFileFromSharedMemoryMmap` or
`receiveFileFifo`, from the results of its `recv` calls on the control
connection. The first three are cleared away before the name of the test is
received, and the fifth is empty when the client is gone. -/
def openedName : (recvs : List (List Byte)) → Option (List Byte)
  | _ :: _ :: _ :: fourth :: more =>
    let messageBuffer := recvInto cleared fourth
    match testNamed (cstr messageBuffer 0) with
    | some .mmap | some .pipe =>
      let messageBuffer := recvOver messageBuffer (more.head?.getD [])
      some (cstr messageBuffer 0)
    | _ => none
  | _ => none

/-- The server opens what the client named. -/
def OpensName (a : Announcement) (param : List Byte) : Prop :=
  openedName (clientMessages a param) = some param

/-! ## The buffer -/

/-- The buffer behind the reception of the test name, whose first four bytes
are not overwritten by a shorter name. -/
theorem buffer_shared (shared : test = .mmap ∨ test = .pipe) :
    testNamed (cstr (recvInto cleared test.message) 0) = some test ∧
      ∃ zeros, recvInto cleared test.message = test.name ++ NUL :: zeros ∧
        test.name.length = 4 ∧ (∀ b ∈ NUL :: zeros, b = NUL) ∧ zeros.length = 1019 := by
  have named : testNamed (cstr (recvInto cleared test.message) 0) = some test := by
    rcases shared with rfl | rfl <;> decide
  have length : test.name.length = 4 := by
    rcases shared with rfl | rfl <;> rfl
  have message : test.message = test.name ++ [NUL] := by
    rcases shared with rfl | rfl <;> rfl
  refine ⟨named, NUL :: cleared.drop 6, ?_, length, ?_, ?_⟩
  · rw [recvInto, message, List.append_assoc, List.length_append, length]
    rfl
  · intro b member
    have zero : ∀ b ∈ cleared, b = NUL := fun b member => List.eq_of_mem_replicate member
    rcases List.mem_cons.mp member with rfl | member
    · rfl
    · rcases List.mem_cons.mp member with rfl | member
      · rfl
      · exact zero b (List.mem_of_mem_drop member)
  · have size : BUFFER_SIZE_MESSAGE = 1024 := rfl
    simp only [List.length_cons, List.length_drop, cleared, List.length_replicate, size]

/-- A clean name is read up to the end of the test name it was received over. -/
theorem cstr_over {name test zeros : List Byte} (clean : NUL ∉ name) (clean_test : NUL ∉ test)
    (terminated : ∀ b ∈ NUL :: zeros, b = NUL) (room : name.length ≤ test.length + zeros.length) :
    cstr (recvOver (test ++ NUL :: zeros) name) 0 = name ++ test.drop name.length := by
  have zero_left : ∃ more, (NUL :: zeros).drop (name.length - test.length) = NUL :: more := by
    obtain ⟨b, more, left⟩ := List.exists_cons_of_ne_nil
      (l := (NUL :: zeros).drop (name.length - test.length)) (by
        rw [ne_eq, List.drop_eq_nil_iff, List.length_cons]
        omega)
    have member : b ∈ NUL :: zeros := List.mem_of_mem_drop (left ▸ List.mem_cons_self)
    exact ⟨more, by rw [left, terminated b member]⟩
  obtain ⟨more, left⟩ := zero_left
  apply cstr_of_holds
  refine ⟨?_, more, ?_⟩
  · rw [List.mem_append, not_or]
    exact ⟨clean, fun member => clean_test (List.mem_of_mem_drop member)⟩
  · rw [List.drop_zero, recvOver, List.drop_append, left, List.append_assoc]

/-! ## The name as it is opened -/

/-- What is opened is the name with the end of the test name it is too short
to cover, and the test name itself when the client had no name to send. -/
theorem opened_name (a : Announcement) (shared : a.test = .mmap ∨ a.test = .pipe)
    (clean : NUL ∉ param) (length : param.length ≤ 1023) :
    openedName (clientMessages a param) =
      match filenameOf param with
      | none => some a.test.name
      | some name => some (name ++ a.test.name.drop name.length) := by
  obtain ⟨named, zeros, buffer, four, terminated, many⟩ := buffer_shared shared
  rw [buffer] at named
  have opens (more : List (List Byte)) :
      openedName (a.filesizeStr :: a.checksumStr :: a.startTimeStr :: a.test.message :: more) =
        some (cstr (recvOver (a.test.name ++ NUL :: zeros) (more.head?.getD [])) 0) := by
    unfold openedName
    simp only [buffer, named]
    rcases shared with same | same
    · rw [same]
    · rw [same]
  have clean_test := (name_clean a.test).1
  unfold clientMessages
  cases given : filenameOf param with
  | none =>
    have read : cstr (recvOver (a.test.name ++ NUL :: zeros) []) 0 = a.test.name :=
      cstr_over nofun clean_test terminated (Nat.zero_le _)
    exact (opens []).trans (congrArg some read)
  | some name =>
    have same : name = param := by
      unfold filenameOf at given
      split_ifs at given
      exact (Option.some.inj given).symm
    subst same
    have read := cstr_over clean clean_test terminated (by omega)
    exact (opens [name]).trans (congrArg some read)

/-- The server opens the name exactly when it covers the four bytes of the name
of the test, and is not one of the words `main` keeps for itself. -/
theorem opens_name_iff (a : Announcement) (shared : a.test = .mmap ∨ a.test = .pipe)
    (clean : NUL ∉ param) (length : param.length ≤ 1023) :
    OpensName a param ↔ 4 ≤ param.length ∧ param ≠ ascii "dgram" ∧ param ≠ ascii "stream" := by
  have four : a.test.name.length = 4 := by
    rcases shared with same | same <;> rw [same] <;> rfl
  unfold OpensName
  rw [opened_name a shared clean length]
  cases given : filenameOf param with
  | none =>
    -- three of the words are too short, or one of the other two
    have word : param = ascii "tcp" ∨ param = ascii "udp" ∨ param = ascii "dgram" ∨
        param = ascii "stream" := by
      unfold filenameOf at given
      split_ifs at given with tcp udp dgram stream
      · exact Or.inl tcp
      · exact Or.inr (Or.inl udp)
      · exact Or.inr (Or.inr (Or.inl dgram))
      · exact Or.inr (Or.inr (Or.inr stream))
    have other : a.test.name ≠ param := by
      rcases shared with same | same <;> rcases word with rfl | rfl | rfl | rfl <;> rw [same] <;> decide
    refine iff_of_false (fun opened => other (Option.some.inj opened)) ?_
    rintro ⟨long, dgram, stream⟩
    rcases word with rfl | rfl | same | same
    · exact absurd long (by decide)
    · exact absurd long (by decide)
    · exact dgram same
    · exact stream same
  | some name =>
    unfold filenameOf at given
    split_ifs at given with tcp udp dgram stream
    cases Option.some.inj given
    have covered : a.test.name.drop param.length = [] ↔ 4 ≤ param.length := by
      rw [List.drop_eq_nil_iff, four]
    simp only [Option.some.injEq, List.append_right_eq_self, covered, ne_eq, dgram, stream,
      not_false_eq_true, and_self, and_true]

/-- A test over a shared mapping. -/
def mappedTest : Announcement := ⟨104857600, 7, 1700000000, 125000, .mmap, by decide, by decide⟩

theorem opens_name_iff_at :
    OpensName mappedTest (ascii "shm_file") ↔
      4 ≤ (ascii "shm_file").length ∧ ascii "shm_file" ≠ ascii "dgram" ∧
        ascii "shm_file" ≠ ascii "stream" :=
  opens_name_iff mappedTest (Or.inl rfl) (by decide) (by decide)

/-- Of the name `a` the server makes `amap`. -/
theorem short_name_grows :
    ¬ ∀ (a : Announcement) (param : List Byte), a.test = .mmap ∨ a.test = .pipe → param ≠ [] →
      NUL ∉ param → param.length ≤ 1023 → OpensName a param := by
  intro opens
  have same := opens mappedTest (ascii "a") (Or.inl rfl) (by decide) (by decide) (by decide)
  unfold OpensName at same
  rw [opened_name mappedTest (Or.inl rfl) (by decide) (by decide)] at same
  exact absurd same (by decide)

/-! ## The run of the client -/

theorem to_list_loop (bytes : ByteArray) (i : Nat) (front : List UInt8) :
    ByteArray.toList.loop bytes i front = front.reverse ++ bytes.data.toList.drop i := by
  fun_induction ByteArray.toList.loop bytes i front with
  | case1 i front inside ih =>
    have here : i < bytes.data.toList.length := by simpa using inside
    have byte : bytes.get! i = bytes.data.toList[i] := by
      rw [Array.getElem_toList]
      exact getElem!_pos bytes.data i inside
    rw [ih, List.reverse_cons, List.append_assoc, List.singleton_append, byte,
      List.drop_eq_getElem_cons here]
  | case2 i front outside =>
    have behind : bytes.data.toList.length ≤ i := by simpa using outside
    rw [List.drop_of_length_le behind, List.append_nil]

theorem utf8_data (s : String) : utf8 s = s.toUTF8.data.toList.map UInt8.toBitVec :=
  congrArg (List.map UInt8.toBitVec) (to_list_loop s.toUTF8 0 [])

theorem utf8_eq_iff (param word : String) : utf8 param = utf8 word ↔ param = word := by
  have injective : Function.Injective (List.map UInt8.toBitVec) :=
    List.map_injective_iff.mpr fun _ _ same => UInt8.toBitVec_inj.mp same
  rw [utf8_data, utf8_data, injective.eq_iff, Array.toList_inj, ← ByteArray.ext_iff,
    String.toUTF8_eq_toByteArray, String.toUTF8_eq_toByteArray, String.toByteArray_inj]

/-- On a text the chain is the one that sets `filename` among the client's flags. -/
theorem select_filename (s : Selection) (unset : s.filename = none) (param : String) :
    (selectParam s param).filename.map utf8 = filenameOf (utf8 param) := by
  have tcp : ascii "tcp" = utf8 "tcp" := (utf8_data "tcp").symm
  have udp : ascii "udp" = utf8 "udp" := (utf8_data "udp").symm
  have dgram : ascii "dgram" = utf8 "dgram" := (utf8_data "dgram").symm
  have stream : ascii "stream" = utf8 "stream" := (utf8_data "stream").symm
  unfold filenameOf selectParam
  simp only [tcp, udp, dgram, stream, utf8_eq_iff]
  split_ifs <;> simp [unset]

def messages (events : List TestSelection.Event) : List (List Byte) :=
  events.filterMap fun
    | .message bytes => some bytes
    | .routine _ => none

/-- The messages are those of a client that was started with `-p mmap param` or
`-p pipe param`. -/
theorem run_messages (arguments : Arguments) (ip : arguments.ip ≠ none) (port : arguments.port ≠ none)
    (a : Announcement) (shared : type = "mmap" ∧ a.test = .mmap ∨ type = "pipe" ∧ a.test = .pipe)
    (param : String) :
    messages (runClient arguments (selectParam (selectType {} type) param)
        ⟨a.filesizeStr, a.checksumStr, a.startTimeStr⟩ .made).events =
      clientMessages a (utf8 param) := by
  have name := select_filename {} rfl param
  have address : ¬ (arguments.port = none ∨ arguments.ip = none) := not_or.mpr ⟨port, ip⟩
  rw [clientMessages, ← name]
  unfold runClient selectParam
  rw [if_neg (by decide), if_neg address, if_neg (by decide)]
  rcases shared with ⟨rfl, test⟩ | ⟨rfl, test⟩
  · rw [test]
    split_ifs <;> rfl
  · rw [test]
    split_ifs <;> rfl

end OsCourse.SharedName
