import OsCourse.ControlMessages
import OsCourse.Simulation
import Mathlib.Logic.Function.Basic

/-! `stnc -c` in conversation with `stnc -s`, without `-p` and `-q`. Each end has
an event loop over its standard input and its end of the connection; `send`
blocks while the connection holds as many bytes as it takes in that direction,
and a party that blocks there receives nothing. Behind a read that fills the
whole buffer nothing is known of a party: its terminator is stored behind the
array. -/
namespace OsCourse.ChatConversation
open Stdio CString ControlMessages Transition Simulation

inductive End where
  | client
  | server
  deriving DecidableEq

def End.peer : End → End
  | .client => .server
  | .server => .client

theorem End.peer_peer (e : End) : e.peer.peer = e := by cases e <;> rfl

/-- What one end has typed, the part `send` has still to hand over, the part
under way, and what the other end has printed of it. -/
structure Direction where
  typed : List Byte
  unsent : List Byte
  stream : List Byte
  printed : List Byte
  deriving DecidableEq

/-- The directions by the end they start from. A party that has left has closed
its end, and was told so if its `recv` returned 0. One that has strayed has
written behind its buffer. -/
structure Conversation where
  direction : End → Direction
  messageBuffer : End → List Byte
  left : End → Bool
  told : End → Bool
  strayed : End → Bool

inductive Action where
  | typed (party : End) (chunk : List Byte)
  | accepted (party : End) (count : Nat)
  | received (party : End) (count : Nat)
  | receivedEnd (party : End)
  | exits (party : End)

def Conversation.change (s : Conversation) (party : End) (direction : Direction) : Conversation :=
  { s with direction := Function.update s.direction party direction }

/-- The party is at its `poll`, and not in a `send`. -/
def Conversation.Polls (s : Conversation) (party : End) : Prop :=
  s.left party = false ∧ s.strayed party = false ∧ (s.direction party).unsent = []

instance (s : Conversation) (party : End) : Decidable (s.Polls party) :=
  inferInstanceAs (Decidable (_ ∧ _))

/-! ## The steps -/

/-- `read` from the standard input, up to the call of `send`. -/
def typed (s : Conversation) (party : End) (chunk : List Byte) : Option Conversation :=
  let own := s.direction party
  if s.Polls party ∧ chunk.length ≤ BUFFER_SIZE_MESSAGE then
    if chunk.length < BUFFER_SIZE_MESSAGE then
      some { s.change party { own with typed := own.typed ++ chunk, unsent := chunk } with
        messageBuffer := Function.update s.messageBuffer party cleared }
    else some { s with strayed := Function.update s.strayed party true }
  else none

section Connection
variable (capacity : Nat)

/-- The connection takes more of what is sent. -/
def accepted (s : Conversation) (party : End) (count : Nat) : Option Conversation :=
  let own := s.direction party
  if s.left party = false ∧ 0 < count ∧ count ≤ own.unsent.length ∧
      own.stream.length + count ≤ capacity then
    some (s.change party { own with
      stream := own.stream ++ own.unsent.take count, unsent := own.unsent.drop count })
  else none

/-- `recv` and the print behind it. -/
def received (s : Conversation) (party : End) (count : Nat) : Option Conversation :=
  let other := s.direction party.peer
  if s.Polls party ∧ 0 < count ∧ count ≤ BUFFER_SIZE_MESSAGE - 1 ∧
      count ≤ other.stream.length then
    let messageBuffer := recvInto (s.messageBuffer party) (other.stream.take count)
    some { s.change party.peer { other with
        stream := other.stream.drop count, printed := other.printed ++ cstr messageBuffer 0 } with
      messageBuffer := Function.update s.messageBuffer party cleared }
  else none

/-- `recv` returns 0: the client exits, and the server leaves its loop and
closes the connection. -/
def receivedEnd (s : Conversation) (party : End) : Option Conversation :=
  if s.Polls party ∧ s.left party.peer = true ∧ (s.direction party.peer).stream = [] then
    some { s with left := Function.update s.left party true
                  told := Function.update s.told party true }
  else none

/-- A party ends without having been told, by a failed call or from outside. -/
def exits (s : Conversation) (party : End) : Option Conversation :=
  if s.left party = false then some { s with left := Function.update s.left party true } else none

def step (s : Conversation) : Action → Option Conversation
  | .typed party chunk => typed s party chunk
  | .accepted party count => accepted capacity s party count
  | .received party count => received s party count
  | .receivedEnd party => receivedEnd s party
  | .exits party => exits s party

end Connection

/-- The connection is there, with whatever the two buffers hold. -/
def connected (stack : End → List Byte) : Conversation :=
  ⟨fun _ => ⟨[], [], [], []⟩, stack, fun _ => false, fun _ => false, fun _ => false⟩

/-! ## The properties -/

/-- What a `read` of the standard input gets holds no NUL byte and leaves room
for the terminator. -/
def TypesText : Conversation → Action → Prop
  | _, .typed _ chunk => NUL ∉ chunk ∧ chunk.length < BUFFER_SIZE_MESSAGE
  | _, _ => True

/-- Nothing typed is lost, repeated or put out of order, whatever its length
and however it travels. -/
structure Carried (d : Direction) : Prop where
  whole : d.typed = d.printed ++ d.stream ++ d.unsent
  text : NUL ∉ d.typed

/-- Both parties are in a `send` of more than the connection takes. -/
def Doomed (capacity : Nat) (s : Conversation) : Prop :=
  ∀ party, capacity < (s.direction party).stream.length + (s.direction party).unsent.length

/-- Bytes travel, and nobody types or leaves. -/
def onward (capacity : Nat) (s : Conversation) (a : Action) : Option Conversation :=
  match a with
  | .accepted party count => accepted capacity s party count
  | .received party count => received s party count
  | .typed _ _ | .receivedEnd _ | .exits _ => none

/-- A byte that is not sent yet has two steps to go, one under way has one. -/
def toGo (s : Conversation) : Nat :=
  (2 * (s.direction .client).unsent.length + (s.direction .client).stream.length) +
    (2 * (s.direction .server).unsent.length + (s.direction .server).stream.length)

/-! ## Every byte in its order -/

theorem direction_change (s : Conversation) (party : End) (d : Direction) (e : End) :
    (s.change party d).direction e = if e = party then d else s.direction e :=
  Function.update_apply s.direction party d e

/-- The text printed is what was received, if it was text. -/
theorem received_text (messageBuffer : List Byte) (clean : NUL ∉ chunk) :
    cstr (recvInto messageBuffer chunk) 0 = chunk :=
  cstr_of_holds ⟨clean, _, rfl⟩

theorem typed_carried (carried : Carried d) (sent : d.unsent = []) (text : NUL ∉ chunk) :
    Carried { d with typed := d.typed ++ chunk, unsent := chunk } := by
  have whole := carried.whole
  rw [sent, List.append_nil] at whole
  refine ⟨?_, ?_⟩
  · simp only [whole, List.append_assoc]
  · intro member
    rcases List.mem_append.mp member with before | now
    · exact carried.text before
    · exact text now

theorem accepted_carried (carried : Carried d) (count : Nat) :
    Carried { d with
      stream := d.stream ++ d.unsent.take count, unsent := d.unsent.drop count } := by
  refine ⟨?_, carried.text⟩
  show d.typed = d.printed ++ (d.stream ++ d.unsent.take count) ++ d.unsent.drop count
  rw [← List.append_assoc, List.append_assoc _ (d.unsent.take count), List.take_append_drop]
  exact carried.whole

theorem received_carried (carried : Carried d) (messageBuffer : List Byte) (count : Nat) :
    Carried { d with
      stream := d.stream.drop count
      printed := d.printed ++ cstr (recvInto messageBuffer (d.stream.take count)) 0 } := by
  have clean : NUL ∉ d.stream.take count := by
    intro member
    have under_way := List.mem_of_mem_take member
    exact carried.text (carried.whole ▸
      List.mem_append_left _ (List.mem_append_right _ under_way))
  refine ⟨?_, carried.text⟩
  rw [received_text messageBuffer clean]
  show d.typed = d.printed ++ d.stream.take count ++ d.stream.drop count ++ d.unsent
  rw [List.append_assoc d.printed, List.take_append_drop]
  exact carried.whole

variable {capacity : Nat}

/-- What one step can do. -/
theorem step_cases {s : Conversation} (stepped : step capacity s a = some t) :
    (∃ party chunk, a = .typed party chunk ∧ s.Polls party ∧
      t = { s.change party { s.direction party with
          typed := (s.direction party).typed ++ chunk, unsent := chunk } with
        messageBuffer := Function.update s.messageBuffer party cleared }) ∨
    (∃ party count, a = .accepted party count ∧ s.left party = false ∧ 0 < count ∧
      count ≤ (s.direction party).unsent.length ∧
      (s.direction party).stream.length + count ≤ capacity ∧
      t = s.change party { s.direction party with
        stream := (s.direction party).stream ++ (s.direction party).unsent.take count
        unsent := (s.direction party).unsent.drop count }) ∨
    (∃ party count, a = .received party count ∧ s.Polls party ∧ 0 < count ∧
      count ≤ (s.direction party.peer).stream.length ∧
      t = { s.change party.peer { s.direction party.peer with
          stream := (s.direction party.peer).stream.drop count
          printed := (s.direction party.peer).printed ++ cstr (recvInto (s.messageBuffer party)
            ((s.direction party.peer).stream.take count)) 0 } with
        messageBuffer := Function.update s.messageBuffer party cleared }) ∨
    (∃ party, a = .receivedEnd party ∧ s.Polls party ∧ s.left party.peer = true ∧
      (s.direction party.peer).stream = [] ∧
      t = { s with left := Function.update s.left party true
                   told := Function.update s.told party true }) ∨
    (∃ party, a = .exits party ∧ s.left party = false ∧
      t = { s with left := Function.update s.left party true }) ∨
    (∃ party chunk, a = .typed party chunk ∧ s.Polls party ∧
      ¬ chunk.length < BUFFER_SIZE_MESSAGE ∧
      t = { s with strayed := Function.update s.strayed party true }) := by
  cases a with
  | typed party chunk =>
    simp only [step, typed] at stepped
    split at stepped
    · rename_i polls
      split at stepped
      · exact Or.inl ⟨party, chunk, rfl, polls.1, (Option.some.inj stepped).symm⟩
      · rename_i full
        exact Or.inr (Or.inr (Or.inr (Or.inr (Or.inr ⟨party, chunk, rfl, polls.1, full,
          (Option.some.inj stepped).symm⟩))))
    · cases stepped
  | accepted party count =>
    simp only [step, accepted] at stepped
    split at stepped
    · rename_i takes
      obtain ⟨present, some_byte, unsent, room⟩ := takes
      exact Or.inr (Or.inl ⟨party, count, rfl, present, some_byte, unsent, room,
        (Option.some.inj stepped).symm⟩)
    · cases stepped
  | received party count =>
    simp only [step, received] at stepped
    split at stepped
    · rename_i gets
      obtain ⟨polls, some_byte, _, under_way⟩ := gets
      exact Or.inr (Or.inr (Or.inl ⟨party, count, rfl, polls, some_byte, under_way,
        (Option.some.inj stepped).symm⟩))
    · cases stepped
  | receivedEnd party =>
    simp only [step, receivedEnd] at stepped
    split at stepped
    · rename_i ended
      exact Or.inr (Or.inr (Or.inr (Or.inl ⟨party, rfl, ended.1, ended.2.1, ended.2.2,
        (Option.some.inj stepped).symm⟩)))
    · cases stepped
  | exits party =>
    simp only [step, exits] at stepped
    split at stepped
    · rename_i present
      exact Or.inr (Or.inr (Or.inr (Or.inr (Or.inl ⟨party, rfl, present,
        (Option.some.inj stepped).symm⟩))))
    · cases stepped

/-- A property of single directions is kept if the changed one has it. -/
theorem change_keeps (good : Direction → Prop) {s : Conversation}
    (before : ∀ e, good (s.direction e)) (changed : good d) (e : End) :
    good ((s.change party d).direction e) := by
  rw [direction_change]
  split
  · exact changed
  · exact before e

theorem step_carried (s : Conversation) (a : Action) (t : Conversation)
    (carried : ∀ e, Carried (s.direction e)) (text : TypesText s a)
    (stepped : step capacity s a = some t) : ∀ e, Carried (t.direction e) := by
  rcases step_cases stepped with ⟨party, chunk, rfl, polls, rfl⟩ |
    ⟨party, count, rfl, present, some_byte, unsent, room, rfl⟩ |
    ⟨party, count, rfl, polls, some_byte, under_way, rfl⟩ |
    ⟨party, rfl, polls, gone, drained, rfl⟩ | ⟨party, rfl, present, rfl⟩ |
    ⟨party, chunk, rfl, polls, full, rfl⟩
  · exact change_keeps Carried carried (typed_carried (carried party) polls.2.2 text.1)
  · exact change_keeps Carried carried (accepted_carried (carried party) count)
  · exact change_keeps Carried carried (received_carried (carried party.peer) _ count)
  · exact carried
  · exact carried
  · exact absurd text.2 full

theorem step_unstrayed (s : Conversation) (a : Action) (t : Conversation)
    (unstrayed : ∀ e, s.strayed e = false) (text : TypesText s a)
    (stepped : step capacity s a = some t) : ∀ e, t.strayed e = false := by
  rcases step_cases stepped with ⟨party, chunk, rfl, polls, rfl⟩ |
    ⟨party, count, rfl, present, some_byte, unsent, room, rfl⟩ |
    ⟨party, count, rfl, polls, some_byte, under_way, rfl⟩ |
    ⟨party, rfl, polls, gone, drained, rfl⟩ | ⟨party, rfl, present, rfl⟩ |
    ⟨party, chunk, rfl, polls, full, rfl⟩
  · exact unstrayed
  · exact unstrayed
  · exact unstrayed
  · exact unstrayed
  · exact unstrayed
  · exact absurd text.2 full

/-- A party that has been told the end has taken in all that was sent to it. -/
structure Told (s : Conversation) (party : End) : Prop where
  gone : s.left party.peer = true
  drained : (s.direction party.peer).stream = []

theorem left_stays {s : Conversation} (gone : s.left e = true) (party : End) :
    Function.update s.left party true e = true := by
  rw [Function.update_apply]
  split
  · rfl
  · exact gone

theorem step_told (s : Conversation) (a : Action) (t : Conversation)
    (told : ∀ e, s.told e = true → Told s e) (stepped : step capacity s a = some t) :
    ∀ e, t.told e = true → Told t e := by
  intro e said
  rcases step_cases stepped with ⟨party, chunk, rfl, polls, rfl⟩ |
    ⟨party, count, rfl, present, some_byte, unsent, room, rfl⟩ |
    ⟨party, count, rfl, polls, some_byte, under_way, rfl⟩ |
    ⟨party, rfl, polls, gone, drained, rfl⟩ | ⟨party, rfl, present, rfl⟩ |
    ⟨party, chunk, rfl, polls, full, rfl⟩
  · refine ⟨(told e said).gone, ?_⟩
    show ((s.change party _).direction e.peer).stream = []
    rw [direction_change]
    split
    · rename_i own
      exact own ▸ (told e said).drained
    · exact (told e said).drained
  · -- nothing more is sent by a party that has left
    have other : e.peer ≠ party := by
      rintro rfl
      rw [(told e said).gone] at present
      cases present
    refine ⟨(told e said).gone, ?_⟩
    rw [direction_change, if_neg other]
    exact (told e said).drained
  · refine ⟨(told e said).gone, ?_⟩
    show ((s.change party.peer _).direction e.peer).stream = []
    rw [direction_change]
    split
    · rename_i own
      show (s.direction party.peer).stream.drop count = []
      rw [← own, (told e said).drained, List.drop_nil]
    · exact (told e said).drained
  · by_cases own : e = party
    · subst own
      exact ⟨left_stays gone e, drained⟩
    · have before := told e (by simpa [own] using said)
      exact ⟨left_stays before.gone party, before.drained⟩
  · exact ⟨left_stays (told e said).gone party, (told e said).drained⟩
  · exact ⟨(told e said).gone, (told e said).drained⟩

theorem carried_reached {stack : End → List Byte}
    (ran : exec (step capacity) (connected stack) actions = some s)
    (texts : Along (step capacity) TypesText (connected stack) actions) :
    ∀ e, Carried (s.direction e) := by
  refine throughout_iff.mp (throughout_of_along step_carried ?_ texts) actions
    List.prefix_rfl s ran
  exact fun _ => ⟨rfl, List.not_mem_nil⟩

theorem unstrayed_reached {stack : End → List Byte}
    (ran : exec (step capacity) (connected stack) actions = some s)
    (texts : Along (step capacity) TypesText (connected stack) actions) :
    ∀ e, s.strayed e = false := by
  refine throughout_iff.mp (throughout_of_along step_unstrayed ?_ texts) actions
    List.prefix_rfl s ran
  exact fun _ => rfl

/-- When the two type text that no `read` fills its buffer with, and however the
connection splits and merges their bytes and whoever leaves when: what a party
has printed is, in order, what the other has typed up to what is still under way
or not sent, and a party that is told the end has printed all that was sent to
it. -/
theorem conversation_in_order (capacity : Nat) (stack : End → List Byte) (actions : List Action)
    (s : Conversation) (ran : exec (step capacity) (connected stack) actions = some s)
    (texts : Along (step capacity) TypesText (connected stack) actions) (party : End) :
    (s.direction party).typed = (s.direction party).printed ++ (s.direction party).stream ++
        (s.direction party).unsent ∧
      (s.told party.peer = true →
        (s.direction party).typed = (s.direction party).printed ++ (s.direction party).unsent) := by
  have carried := carried_reached ran texts
  have told : ∀ e, s.told e = true → Told s e :=
    exec_invariant step_told (fun _ said => Bool.noConfusion said) ran
  refine ⟨(carried party).whole, fun said => ?_⟩
  have drained := (told party.peer said).drained
  rw [party.peer_peer] at drained
  have whole := (carried party).whole
  rwa [drained, List.append_nil] at whole

/-- Two bytes from each end, one received and the server gone. -/
def shortTalk : List Action :=
  [.typed .client [104#8, 105#8], .typed .server [121#8, 111#8], .accepted .client 2,
    .accepted .server 1, .received .client 1, .exits .server]

theorem short_talk_in_order : ∃ s, exec (step 4) (connected fun _ => []) shortTalk = some s ∧
    (s.direction .server).typed = (s.direction .server).printed ++
      (s.direction .server).stream ++ (s.direction .server).unsent ∧
    (s.direction .server).printed = [121#8] ∧ (s.direction .server).unsent = [111#8] := by
  have ran : exec (step 4) (connected fun _ => []) shortTalk = some _ := rfl
  have texts : Along (step 4) TypesText (connected fun _ => []) shortTalk :=
    fun _ _ => ⟨by simp [TypesText, NUL, BUFFER_SIZE_MESSAGE], fun _ _ =>
      ⟨by simp [TypesText, NUL, BUFFER_SIZE_MESSAGE], fun _ _ =>
      ⟨trivial, fun _ _ => ⟨trivial, fun _ _ => ⟨trivial, fun _ _ => ⟨trivial, trivial⟩⟩⟩⟩⟩⟩
  exact ⟨_, ran, (conversation_in_order 4 _ _ _ ran texts .server).1, rfl, rfl⟩

/-! ## Delivery -/

/-- The connection never holds more than it takes. -/
def Bounded (capacity : Nat) (s : Conversation) : Prop :=
  ∀ e, (s.direction e).stream.length ≤ capacity

theorem step_bounded (s : Conversation) (a : Action) (t : Conversation)
    (bounded : Bounded capacity s) (stepped : step capacity s a = some t) : Bounded capacity t := by
  rcases step_cases stepped with ⟨party, chunk, rfl, polls, rfl⟩ |
    ⟨party, count, rfl, present, some_byte, unsent, room, rfl⟩ |
    ⟨party, count, rfl, polls, some_byte, under_way, rfl⟩ |
    ⟨party, rfl, polls, gone, drained, rfl⟩ | ⟨party, rfl, present, rfl⟩ |
    ⟨party, chunk, rfl, polls, full, rfl⟩
  · exact change_keeps (fun d => d.stream.length ≤ capacity) bounded (bounded party)
  · refine change_keeps (fun d => d.stream.length ≤ capacity) bounded ?_
    show ((s.direction party).stream ++ (s.direction party).unsent.take count).length ≤ capacity
    rw [List.length_append, List.length_take, min_eq_left unsent]
    exact room
  · refine change_keeps (fun d => d.stream.length ≤ capacity) bounded ?_
    show ((s.direction party.peer).stream.drop count).length ≤ capacity
    rw [List.length_drop]
    exact Nat.le_trans (Nat.sub_le _ _) (bounded party.peer)
  · exact bounded
  · exact bounded
  · exact bounded

theorem onward_step {s : Conversation} (stepped : onward capacity s a = some t) :
    step capacity s a = some t ∧ TypesText s a ∧ t.left = s.left ∧ t.strayed = s.strayed := by
  cases a with
  | typed | receivedEnd | exits => cases stepped
  | accepted party count =>
    refine ⟨stepped, trivial, ?_⟩
    simp only [onward, accepted] at stepped
    split at stepped <;> cases stepped
    exact ⟨rfl, rfl⟩
  | received party count =>
    refine ⟨stepped, trivial, ?_⟩
    simp only [onward, received] at stepped
    split at stepped <;> cases stepped
    exact ⟨rfl, rfl⟩

/-- A byte handed over or received has one step less to go. -/
theorem onward_to_go {s : Conversation} (stepped : onward capacity s a = some t) :
    toGo t < toGo s := by
  cases a with
  | typed | receivedEnd | exits => cases stepped
  | accepted party count =>
    simp only [onward, accepted] at stepped
    split at stepped
    · rename_i takes
      cases stepped
      cases party <;> simp [toGo, direction_change] <;> omega
    · cases stepped
  | received party count =>
    simp only [onward, received] at stepped
    split at stepped
    · rename_i gets
      cases stepped
      cases party <;> simp [toGo, Conversation.change, End.peer] at gets ⊢ <;> omega
    · cases stepped

/-- Where nobody polls, nobody comes to poll. -/
theorem doomed_blocks {s : Conversation} (bounded : Bounded capacity s)
    (doomed : Doomed capacity s) (party : End) : ¬ s.Polls party := by
  intro polls
  have over_full := doomed party
  rw [polls.2.2, List.length_nil, Nat.add_zero] at over_full
  exact absurd (bounded party) (Nat.not_le_of_lt over_full)

theorem accepted_sum (d : Direction) (unsent : count ≤ d.unsent.length) :
    (d.stream ++ d.unsent.take count).length + (d.unsent.drop count).length =
      d.stream.length + d.unsent.length := by
  rw [List.length_append, List.length_take, List.length_drop, min_eq_left unsent]
  omega

theorem doomed_stays (s : Conversation) (a : Action) (t : Conversation)
    (doomed : Bounded capacity s ∧ Doomed capacity s) (stepped : step capacity s a = some t) :
    Bounded capacity t ∧ Doomed capacity t := by
  refine ⟨step_bounded s a t doomed.1 stepped, ?_⟩
  have blocked := doomed_blocks doomed.1 doomed.2
  rcases step_cases stepped with ⟨party, chunk, rfl, polls, rfl⟩ |
    ⟨party, count, rfl, present, some_byte, unsent, room, rfl⟩ |
    ⟨party, count, rfl, polls, some_byte, under_way, rfl⟩ |
    ⟨party, rfl, polls, gone, drained, rfl⟩ | ⟨party, rfl, present, rfl⟩ |
    ⟨party, chunk, rfl, polls, full, rfl⟩
  · exact absurd polls (blocked party)
  · refine change_keeps (fun d => capacity < d.stream.length + d.unsent.length) doomed.2 ?_
    exact Nat.lt_of_lt_of_eq (doomed.2 party) (accepted_sum _ unsent).symm
  · exact absurd polls (blocked party)
  · exact absurd polls (blocked party)
  · exact doomed.2
  · exact doomed.2

/-- Who is not doomed does not become so while nobody types. -/
theorem onward_not_doomed {s : Conversation} (bounded : Bounded capacity s)
    (stepped : onward capacity s a = some t) (doomed : Doomed capacity t) : Doomed capacity s := by
  rcases step_cases (onward_step stepped).1 with ⟨party, chunk, rfl, polls, rfl⟩ |
    ⟨party, count, rfl, present, some_byte, unsent, room, rfl⟩ |
    ⟨party, count, rfl, polls, some_byte, under_way, rfl⟩ |
    ⟨party, rfl, polls, gone, drained, rfl⟩ | ⟨party, rfl, present, rfl⟩ |
    ⟨party, chunk, rfl, polls, full, rfl⟩
  · cases stepped
  · intro e
    have over_full := doomed e
    rw [direction_change] at over_full
    split at over_full
    · rename_i own
      subst own
      exact Nat.lt_of_lt_of_eq over_full (accepted_sum _ unsent)
    · exact over_full
  · -- the party that receives has nothing unsent
    have other : party ≠ party.peer := by cases party <;> simp [End.peer]
    have over_full := doomed party
    rw [show (Conversation.direction _ party) = s.direction party from
      (direction_change s party.peer _ party).trans (if_neg other), polls.2.2, List.length_nil,
      Nat.add_zero] at over_full
    exact absurd (bounded party) (Nat.not_le_of_lt over_full)
  · cases stepped
  · cases stepped
  · cases stepped

/-- Both parties are in the conversation. -/
def Present (s : Conversation) : Prop := ∀ e, s.left e = false

/-- Where no byte can travel any more, none is left to, unless both are doomed. -/
theorem stuck_delivered {s : Conversation} (positive : 0 < capacity) (present : Present s)
    (unstrayed : ∀ e, s.strayed e = false) (bounded : Bounded capacity s) (spared : ¬ Doomed capacity s)
    (stuck : Stuck (onward capacity) s) (party : End) :
    (s.direction party).stream = [] ∧ (s.direction party).unsent = [] := by
  have full (e : End) (unsent : (s.direction e).unsent ≠ []) :
      (s.direction e).stream.length = capacity := by
    have blocked := stuck (.accepted e 1)
    have some_byte := List.length_pos_iff.mpr unsent
    simp only [onward, accepted] at blocked
    split at blocked
    · cases blocked
    · rename_i refused
      have room := bounded e
      have own := present e
      by_contra different
      exact refused ⟨own, Nat.one_pos, some_byte, by omega⟩
  have heard (e : End) (sent : (s.direction e.peer).unsent = []) :
      (s.direction e).stream = [] := by
    have blocked := stuck (.received e.peer 1)
    simp only [onward, received, e.peer_peer] at blocked
    split at blocked
    · cases blocked
    · rename_i refused
      by_contra under_way
      exact refused ⟨⟨present e.peer, unstrayed e.peer, sent⟩, Nat.one_pos, by decide,
        List.length_pos_iff.mpr under_way⟩
  have sent (e : End) : (s.direction e).unsent = [] := by
    by_contra unsent
    -- the other blocks as well, for otherwise it would have received what fills the connection
    have other : (s.direction e.peer).unsent ≠ [] := by
      intro idle
      have own := full e unsent
      rw [heard e idle, List.length_nil] at own
      omega
    refine spared fun any => ?_
    have some_byte : (s.direction any).unsent ≠ [] := by
      cases e <;> cases any <;> assumption
    have own := full any some_byte
    have more := List.length_pos_iff.mpr some_byte
    omega
  exact ⟨heard party (sent party.peer), sent party⟩

/-- When nobody types any more, every byte typed so far comes to be printed
within boundedly many steps, however they are ordered, unless each party is in a
`send` of more than the connection takes. From there the two stay blocked. -/
theorem delivered_unless_doomed (capacity : Nat) (positive : 0 < capacity)
    (stack : End → List Byte) (actions : List Action) (s : Conversation)
    (ran : exec (step capacity) (connected stack) actions = some s)
    (texts : Along (step capacity) TypesText (connected stack) actions) (present : Present s) :
    (¬ Doomed capacity s → ∀ more t, exec (onward capacity) s more = some t →
      more.length ≤ toGo s ∧ (Stuck (onward capacity) t →
        ∀ party, (t.direction party).printed = (t.direction party).typed)) ∧
    (Doomed capacity s → ∀ more t, exec (step capacity) s more = some t →
      Doomed capacity t ∧ ∀ party, ¬ t.Polls party) := by
  have empty : Bounded capacity (connected stack) := fun _ => Nat.zero_le capacity
  have bounded : Bounded capacity s := exec_invariant step_bounded empty ran
  constructor
  · intro spared more t continued
    have carried : ∀ e, Carried (s.direction e) := carried_reached ran texts
    have kept (u : Conversation) (a : Action) (v : Conversation)
        (inv : (Bounded capacity u ∧ ¬ Doomed capacity u ∧ Present u ∧ ∀ e, u.strayed e = false) ∧
          ∀ e, Carried (u.direction e)) (stepped : onward capacity u a = some v) :
        (Bounded capacity v ∧ ¬ Doomed capacity v ∧ Present v ∧ ∀ e, v.strayed e = false) ∧
          ∀ e, Carried (v.direction e) := by
      obtain ⟨plain, text, stays, known⟩ := onward_step stepped
      obtain ⟨⟨fits, not_doomed, here, unstrayed⟩, whole⟩ := inv
      exact ⟨⟨step_bounded u a v fits plain,
        fun doomed => not_doomed (onward_not_doomed fits stepped doomed),
        fun e => stays ▸ here e, fun e => known ▸ unstrayed e⟩, step_carried u a v whole text plain⟩
    have start := And.intro (And.intro bounded (And.intro spared (And.intro present
      (unstrayed_reached ran texts)))) carried
    refine ⟨?_, fun stuck party => ?_⟩
    · exact Nat.le_of_add_right_le
        (run_length kept (fun _ _ _ _ stepped => onward_to_go stepped) start continued)
    · obtain ⟨⟨fits, not_doomed, here, unstrayed⟩, whole⟩ := exec_invariant kept start continued
      obtain ⟨drained, sent⟩ :=
        stuck_delivered positive here unstrayed fits not_doomed stuck party
      have all := (whole party).whole
      rw [drained, sent, List.append_nil, List.append_nil] at all
      exact all.symm
  · intro doomed more t continued
    obtain ⟨fits, still⟩ := exec_invariant doomed_stays ⟨bounded, doomed⟩ continued
    exact ⟨still, doomed_blocks fits still⟩

/-- Each end types two bytes into a connection that takes one. -/
def bothSend : List Action := [.typed .client [104#8, 105#8], .typed .server [121#8, 111#8]]

theorem both_send_for_good : ∃ s, exec (step 1) (connected fun _ => []) bothSend = some s ∧
    Doomed 1 s ∧ ∀ more t, exec (step 1) s more = some t → ∀ party, ¬ t.Polls party := by
  have texts : Along (step 1) TypesText (connected fun _ => []) bothSend :=
    fun _ _ => ⟨by simp [TypesText, NUL, BUFFER_SIZE_MESSAGE], fun _ _ =>
      ⟨by simp [TypesText, NUL, BUFFER_SIZE_MESSAGE], trivial⟩⟩
  obtain ⟨s, ran, present, doomed⟩ : ∃ s, exec (step 1) (connected fun _ => []) bothSend = some s ∧
      Present s ∧ Doomed 1 s :=
    ⟨_, rfl, fun _ => rfl, fun party => by cases party <;> exact Nat.lt_succ_self 1⟩
  have blocked := (delivered_unless_doomed 1 Nat.one_pos _ _ _ ran texts present).2 doomed
  exact ⟨s, ran, doomed, fun more t continued => (blocked more t continued).2⟩

end OsCourse.ChatConversation
