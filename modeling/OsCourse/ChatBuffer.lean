import OsCourse.SharedName
import OsCourse.Transition

/-! `messageBuffer` in the event loops of `run_client` and `run_server` of
`stnc.c`. A step is one `read` or `recv` and what is done with the buffer up to
the next one; every use of the buffer is written down, so that a run can be
judged by its uses. -/
namespace OsCourse.ChatBuffer
open Stdio CString ControlMessages QuietMode SharedName Transition

/-- The array `messageBuffer`, whatever is in it. -/
structure MessageArray where
  bytes : List Byte
  size : bytes.length = BUFFER_SIZE_MESSAGE

/-- A use of the buffer: a call fills this many of its bytes, the terminator is
stored, or the text in it is printed with `%s`, parsed, compared or opened. -/
inductive Access where
  | fills (count : Nat)
  | store (index : Nat)
  | text (messageBuffer : List Byte)
  deriving DecidableEq

/-- The party of the conversation that runs, past the options of `main`. The
client of a test never comes to its event loop. -/
inductive Party where
  | client
  | server (test quiet : Bool)

/-- The call a party is at: `poll`, `accept`, or a `recv` of the announcement of
a test. Behind a store outside the buffer nothing is known. -/
inductive Place where
  | poll
  | accept
  | checksum
  | startTime
  | testName
  | sharedName
  | exited
  | undefined
  deriving DecidableEq

structure Loop where
  place : Place
  messageBuffer : List Byte
  accesses : List Access

/-- What a call returns: the bytes typed or received, none at the end of the
stream; a connection, for which the buffer is a new local; or a failure. -/
inductive Input where
  | typed (chunk : List Byte)
  | received (chunk : List Byte)
  | connected (stack : MessageArray)
  | failed

/-! ## The loops -/

/-- The branch of the standard input, up to `bzero`. -/
def Loop.readStdin (s : Loop) (chunk : List Byte) : Option Loop :=
  if chunk.length ≤ BUFFER_SIZE_MESSAGE then
    some { place := if chunk.length < BUFFER_SIZE_MESSAGE then .poll else .undefined
           messageBuffer := cleared
           accesses := s.accesses ++ [.fills chunk.length, .store chunk.length] }
  else none

/-- A `recv` of at most `room` bytes, the terminator behind them, this many
uses of the text, and `bzero`. -/
def Loop.recvText (s : Loop) (room : Nat) (chunk : List Byte) (uses : Nat) (next : Place) :
    Option Loop :=
  if chunk.length ≤ room then
    some { place := next
           messageBuffer := cleared
           accesses := s.accesses ++ [.fills chunk.length, .store chunk.length] ++
             List.replicate uses (.text (recvInto s.messageBuffer chunk)) }
  else none

/-- The name of the test, printed unless quiet and compared. With a shared file
the buffer goes into the next `recv` as it is. -/
def Loop.recvTest (s : Loop) (quiet : Bool) (chunk : List Byte) : Option Loop :=
  if chunk.length ≤ 20 then
    let messageBuffer := recvInto s.messageBuffer chunk
    let accesses := s.accesses ++ [.fills chunk.length, .store chunk.length] ++
      List.replicate (if quiet then 1 else 2) (.text messageBuffer)
    match testNamed (cstr messageBuffer 0) with
    | some .mmap | some .pipe => some ⟨.sharedName, messageBuffer, accesses⟩
    | _ => some ⟨.poll, cleared, accesses⟩
  else none

/-- The name of the shared file, received without a terminator, printed unless
quiet and opened. -/
def Loop.recvName (s : Loop) (quiet : Bool) (chunk : List Byte) : Option Loop :=
  if chunk.length ≤ BUFFER_SIZE_MESSAGE - 1 then
    some { place := .poll
           messageBuffer := cleared
           accesses := s.accesses ++ [.fills chunk.length] ++
             List.replicate (if quiet then 1 else 2) (.text (recvOver s.messageBuffer chunk)) }
  else none

/-- What a party does with the result of a `recv`. -/
def hear (party : Party) (s : Loop) (chunk : List Byte) : Option Loop :=
  match party, s.place with
  | .client, .poll =>
    if chunk = [] then some { s with place := .exited }
    else s.recvText (BUFFER_SIZE_MESSAGE - 1) chunk 1 .poll
  | .server test quiet, .poll =>
    if chunk = [] then some { s with place := .accept }
    else s.recvText (BUFFER_SIZE_MESSAGE - 1) chunk (if quiet then 0 else if test then 2 else 1)
      (if test then .checksum else .poll)
  | .server _ _, .checksum =>
    if chunk = [] then some { s with place := .exited } else s.recvText 20 chunk 1 .startTime
  | .server _ _, .startTime =>
    if chunk = [] then some { s with place := .exited } else s.recvText 20 chunk 1 .testName
  | .server _ quiet, .testName =>
    if chunk = [] then some { s with place := .exited } else s.recvTest quiet chunk
  | .server _ quiet, .sharedName => s.recvName quiet chunk
  | _, _ => none

/-- The loops as steps from call to call. -/
def step (party : Party) (s : Loop) : Input → Option Loop
  | .typed chunk => if s.place = .poll then s.readStdin chunk else none
  | .received chunk => hear party s chunk
  | .connected stack =>
    if s.place = .accept then some { s with place := .poll, messageBuffer := stack.bytes } else none
  | .failed =>
    if s.place = .exited ∨ s.place = .undefined then none else some { s with place := .exited }

/-- A party in front of its event loop. -/
def start (party : Party) (stack : MessageArray) : Loop :=
  match party with
  | .client => ⟨.poll, stack.bytes, []⟩
  | .server _ _ => ⟨.accept, stack.bytes, []⟩

/-! ## The property -/

/-- Bytes are written inside the buffer, and a text ends inside it. -/
def Access.Safe : Access → Prop
  | .fills count => count ≤ BUFFER_SIZE_MESSAGE
  | .store index => index < BUFFER_SIZE_MESSAGE
  | .text messageBuffer => ∃ index < BUFFER_SIZE_MESSAGE, messageBuffer[index]? = some NUL

def Safe (s : Loop) : Prop := ∀ access ∈ s.accesses, access.Safe

/-- What is typed leaves room for the terminator. -/
def LeavesRoom : Input → Prop
  | .typed chunk => chunk.length < BUFFER_SIZE_MESSAGE
  | _ => True

/-- The buffer has its size, and in front of the `recv` calls that come to a
name without a terminator its last byte is one. -/
structure Sound (s : Loop) : Prop where
  size : s.messageBuffer.length = BUFFER_SIZE_MESSAGE
  ended : s.place = .testName ∨ s.place = .sharedName →
    s.messageBuffer[BUFFER_SIZE_MESSAGE - 1]? = some NUL

/-! ## The buffer -/

theorem recv_into_length (whole : messageBuffer.length = BUFFER_SIZE_MESSAGE)
    (room : chunk.length < BUFFER_SIZE_MESSAGE) :
    (recvInto messageBuffer chunk).length = BUFFER_SIZE_MESSAGE := by
  simp only [recvInto, List.length_append, List.length_cons, List.length_drop, whole]
  omega

/-- The terminator is in its place. -/
theorem recv_into_ends (messageBuffer chunk : List Byte) :
    (recvInto messageBuffer chunk)[chunk.length]? = some NUL := by
  simp [recvInto]

theorem recv_into_behind (messageBuffer : List Byte) (behind : chunk.length < index) :
    (recvInto messageBuffer chunk)[index]? = messageBuffer[index]? := by
  rw [recvInto, List.getElem?_append_right (by omega)]
  obtain ⟨distance, far⟩ : ∃ distance, index - chunk.length = distance + 1 :=
    ⟨index - chunk.length - 1, by omega⟩
  rw [far, List.getElem?_cons_succ, List.getElem?_drop]
  congr 1
  omega

theorem recv_over_behind (messageBuffer : List Byte) (behind : chunk.length ≤ index) :
    (recvOver messageBuffer chunk)[index]? = messageBuffer[index]? := by
  rw [recvOver, List.getElem?_append_right behind, List.getElem?_drop]
  congr 1
  omega

theorem cleared_sound (next : Place) (accesses : List Access) :
    Sound ⟨next, cleared, accesses⟩ := by
  refine ⟨List.length_replicate, fun _ => ?_⟩
  rw [cleared, List.getElem?_replicate, if_pos (by decide)]

/-! ## One call -/

theorem safe_more {s t : Loop} (more : t.accesses = s.accesses ++ added) :
    Safe t ↔ Safe s ∧ ∀ access ∈ added, access.Safe := by
  simp only [Safe, more, List.forall_mem_append]

/-- The uses of a text received with its terminator. -/
theorem received_safe (messageBuffer : List Byte) (uses : Nat)
    (room : chunk.length < BUFFER_SIZE_MESSAGE) :
    ∀ access ∈ [Access.fills chunk.length, .store chunk.length] ++
      List.replicate uses (.text (recvInto messageBuffer chunk)), access.Safe := by
  intro access member
  rcases List.mem_append.mp member with here | text
  · simp only [List.mem_cons, List.not_mem_nil, or_false] at here
    rcases here with rfl | rfl
    · exact Nat.le_of_lt room
    · exact room
  · rw [(List.mem_replicate.mp text).2]
    exact ⟨chunk.length, room, recv_into_ends messageBuffer chunk⟩

theorem recv_text_keeps {s t : Loop} (room : asked < BUFFER_SIZE_MESSAGE)
    (stepped : s.recvText asked chunk uses next = some t) : Sound t ∧ (Safe t ↔ Safe s) := by
  unfold Loop.recvText at stepped
  split at stepped
  · rename_i fits
    cases stepped
    refine ⟨cleared_sound _ _, ?_⟩
    rw [safe_more (List.append_assoc _ _ _)]
    exact and_iff_left (received_safe s.messageBuffer uses (by omega))
  · cases stepped

theorem recv_test_keeps {s t : Loop} (sound : Sound s) (place : s.place = .testName)
    (stepped : s.recvTest quiet chunk = some t) : Sound t ∧ (Safe t ↔ Safe s) := by
  have size : BUFFER_SIZE_MESSAGE = 1024 := rfl
  unfold Loop.recvTest at stepped
  split at stepped
  · rename_i fits
    have uses := received_safe s.messageBuffer (if quiet then 1 else 2)
      (show chunk.length < BUFFER_SIZE_MESSAGE by omega)
    have shared (accesses : List Access) :
        Sound ⟨.sharedName, recvInto s.messageBuffer chunk, accesses⟩ := by
      refine ⟨recv_into_length sound.size (by omega), fun _ => ?_⟩
      exact (recv_into_behind s.messageBuffer (by omega)).trans (sound.ended (Or.inl place))
    dsimp only at stepped
    split at stepped <;> cases stepped
    · exact ⟨shared _, (safe_more (List.append_assoc _ _ _)).trans (and_iff_left uses)⟩
    · exact ⟨shared _, (safe_more (List.append_assoc _ _ _)).trans (and_iff_left uses)⟩
    · exact ⟨cleared_sound _ _, (safe_more (List.append_assoc _ _ _)).trans (and_iff_left uses)⟩
  · cases stepped

/-- A name that fills all of the buffer but its last byte still ends there. -/
theorem recv_name_keeps {s t : Loop} (sound : Sound s) (place : s.place = .sharedName)
    (stepped : s.recvName quiet chunk = some t) : Sound t ∧ (Safe t ↔ Safe s) := by
  have size : BUFFER_SIZE_MESSAGE = 1024 := rfl
  unfold Loop.recvName at stepped
  split at stepped
  · rename_i fits
    cases stepped
    refine ⟨cleared_sound _ _, ?_⟩
    rw [safe_more (List.append_assoc _ _ _)]
    refine and_iff_left fun access member => ?_
    rcases List.mem_append.mp member with filled | text
    · rw [List.mem_singleton.mp filled]
      exact Nat.le_trans fits (Nat.sub_le _ _)
    · rw [(List.mem_replicate.mp text).2]
      refine ⟨BUFFER_SIZE_MESSAGE - 1, by omega, ?_⟩
      exact (recv_over_behind s.messageBuffer fits).trans (sound.ended (Or.inr place))
  · cases stepped

/-- At the end of the stream the buffer is left as it is. -/
theorem ended_or {s t : Loop} {other : Option Loop} (sound : Sound s)
    (stepped : (if chunk = [] then some { s with place := next } else other) = some t)
    (elsewhere : ¬ (next = .testName ∨ next = .sharedName))
    (goes_on : other = some t → Sound t ∧ (Safe t ↔ Safe s)) : Sound t ∧ (Safe t ↔ Safe s) := by
  split at stepped
  · cases stepped
    exact ⟨⟨sound.size, fun named => absurd named elsewhere⟩, Iff.rfl⟩
  · exact goes_on stepped

/-- No `recv` misuses the buffer. -/
theorem hear_keeps {s t : Loop} (party : Party) (sound : Sound s)
    (stepped : hear party s chunk = some t) : Sound t ∧ (Safe t ↔ Safe s) := by
  have message : BUFFER_SIZE_MESSAGE - 1 < BUFFER_SIZE_MESSAGE := by decide
  have short : 20 < BUFFER_SIZE_MESSAGE := by decide
  cases party with
  | client =>
    cases place : s.place <;> simp only [hear, place, reduceCtorEq] at stepped
    case poll => exact ended_or sound stepped (by decide) (recv_text_keeps message)
  | server test quiet =>
    cases place : s.place <;> simp only [hear, place, reduceCtorEq] at stepped
    case poll => exact ended_or sound stepped (by decide) (recv_text_keeps message)
    case checksum => exact ended_or sound stepped (by decide) (recv_text_keeps short)
    case startTime => exact ended_or sound stepped (by decide) (recv_text_keeps short)
    case testName => exact ended_or sound stepped (by decide) (recv_test_keeps sound place)
    case sharedName => exact recv_name_keeps sound place stepped

/-- A call is safe for a safe party exactly when what is typed leaves room. -/
theorem step_keeps (party : Party) (s : Loop) (input : Input) (t : Loop) (sound : Sound s)
    (stepped : step party s input = some t) :
    Sound t ∧ (Safe t ↔ Safe s ∧ LeavesRoom input) := by
  cases input with
  | typed chunk =>
    simp only [step, Loop.readStdin] at stepped
    split at stepped
    · split at stepped
      · rename_i fits
        cases stepped
        refine ⟨cleared_sound _ _, (safe_more rfl).trans (and_congr_right fun _ => ?_)⟩
        simp only [List.mem_cons, List.not_mem_nil, or_false, forall_eq_or_imp, forall_eq,
          Access.Safe, fits, true_and, LeavesRoom]
      · cases stepped
    · cases stepped
  | received chunk =>
    obtain ⟨kept, same⟩ := hear_keeps party sound stepped
    exact ⟨kept, same.trans (and_iff_left trivial).symm⟩
  | connected stack =>
    simp only [step] at stepped
    split at stepped
    · cases stepped
      exact ⟨⟨stack.size, nofun⟩, (and_iff_left trivial).symm⟩
    · cases stepped
  | failed =>
    simp only [step] at stepped
    split at stepped
    · cases stepped
    · cases stepped
      exact ⟨⟨sound.size, nofun⟩, (and_iff_left trivial).symm⟩

/-! ## Runs -/

theorem start_sound (party : Party) (stack : MessageArray) : Sound (start party stack) := by
  cases party <;> exact ⟨stack.size, nofun⟩

/-- All uses of the buffer are safe in a run, of either party and with any
options, if and only if nothing typed fills the buffer to its end. -/
theorem buffer_safe_iff (party : Party) (stack : MessageArray) (inputs : List Input) :
    Throughout (step party) Safe (start party stack) inputs ↔
      Along (step party) (fun _ input => LeavesRoom input) (start party stack) inputs := by
  have kept (s : Loop) (input : Input) (t : Loop) (sound : Sound s)
      (stepped : step party s input = some t) : Sound t :=
    (step_keeps party s input t sound stepped).1
  have nothing_used : Safe (start party stack) := by
    cases party <;> exact nofun
  rw [← throughout_and_invariant kept (start_sound party stack)]
  refine throughout_iff_along (fun s input t good stepped => ?_)
    ⟨start_sound party stack, nothing_used⟩
  obtain ⟨sound, safe⟩ := step_keeps party s input t good.1 stepped
  rw [and_iff_right sound, safe, and_iff_right good.2]

/-- A full buffer of the letter `a`. -/
def fullLine : List Byte := List.replicate 1024 0x61

/-- A full read of the standard input puts the terminator behind the buffer. -/
theorem full_read_stores_behind :
    ¬ ∀ (party : Party) (stack : MessageArray) (inputs : List Input),
      Throughout (step party) Safe (start party stack) inputs := by
  intro safe
  let stack : MessageArray := ⟨cleared, List.length_replicate⟩
  have length : fullLine.length = 1024 := List.length_replicate
  have stored : step .client (start .client stack) (.typed fullLine) =
      some ⟨.undefined, cleared, [.fills 1024, .store 1024]⟩ := by
    simp [step, start, Loop.readStdin, length, BUFFER_SIZE_MESSAGE]
  have good := throughout_start ((safe .client stack [.typed fullLine]).2 _ stored)
  have inside : (1024 : Nat) < BUFFER_SIZE_MESSAGE := good (.store 1024) (by simp)
  exact absurd inside (by decide)

end OsCourse.ChatBuffer
