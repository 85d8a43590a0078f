import OsCourse.ChatConversation

/-! The chat of `partA.c`, in which the two parties take turns: each types a
line, sends it and waits for the answer. Lines are cut at their first NUL byte
by `strlen`, the end of the standard input leaves the last message received in
the buffer, and it is sent back. -/
namespace OsCourse.ChatTurns
open Stdio CString Transition ChatConversation

def BUFFER_SIZE : Nat := 1024

/-- Where a party is: in one of its calls, behind its loop, ended from outside, or
behind a text without terminator, from where on it may do anything. -/
inductive Place where
  | fgets
  | recv
  | broken
  | killed
  | undefined
  deriving DecidableEq

/-- The process is in its loop. -/
def Place.Running (place : Place) : Prop := place = .fgets ∨ place = .recv

instance (place : Place) : Decidable place.Running := inferInstanceAs (Decidable (_ ∨ _))

/-- The bytes sent in one direction, those under way, and those printed. -/
structure Channel where
  sent : List Byte
  stream : List Byte
  printed : List Byte

/-- `failed` remembers a `recv` of the party that returned -1. -/
structure Chat where
  place : End → Place
  buffer : End → List Byte
  channel : End → Channel
  failed : End → Bool

/-- `taken` is what `send` accepts of the text, none of it where the call fails. -/
inductive Action where
  | typed (party : End) (line : List Byte) (taken : Nat)
  | inputEnds (party : End) (taken : Nat)
  | received (party : End) (chunk : List Byte)
  | receivedEnd (party : End)
  | recvFails (party : End)
  | killed (party : End)
  | strays (party : End) (bytes : List Byte)

def Chat.goto (s : Chat) (party : End) (place : Place) (buffer : List Byte) : Chat :=
  { s with place := Function.update s.place party place
           buffer := Function.update s.buffer party buffer }

def Chat.carry (s : Chat) (party : End) (channel : Channel) : Chat :=
  { s with channel := Function.update s.channel party channel }

/-- The text in the buffer ends inside it. -/
def Ended (buffer : List Byte) : Prop := (cstr buffer 0).length < buffer.length

instance (buffer : List Byte) : Decidable (Ended buffer) :=
  inferInstanceAs (Decidable (_ < _))

/-- Bytes the connection takes from a party. -/
def Chat.send (s : Chat) (party : End) (bytes : List Byte) : Chat :=
  s.carry party { s.channel party with
    sent := (s.channel party).sent ++ bytes
    stream := (s.channel party).stream ++ bytes }

/-- `send` of the text in the buffer, and on to `recv` whatever it returns. -/
def sends (s : Chat) (party : End) (buffer : List Byte) (taken : Nat) : Chat :=
  if Ended buffer then (s.goto party .recv buffer).send party ((cstr buffer 0).take taken)
  else s.goto party .undefined buffer

/-- `recv` of at most `BUFFER_SIZE` bytes into the zeroed buffer, and the print. -/
def hears (s : Chat) (party : End) (chunk : List Byte) : Chat :=
  let buffer := chunk ++ List.replicate (BUFFER_SIZE - chunk.length) NUL
  if Ended buffer then
    (s.goto party .fgets buffer).carry party.peer { s.channel party.peer with
      stream := (s.channel party.peer).stream.drop chunk.length
      printed := (s.channel party.peer).printed ++ cstr buffer 0 }
  else s.goto party .undefined buffer

/-- A line of `fgets` has a byte at least and leaves room for the terminator.
`recv` returns 0 when the other party is gone and all it sent has been read, and
may fail at any time. -/
def step (s : Chat) : Action → Option Chat
  | .typed party line taken =>
    if s.place party = .fgets ∧ line ≠ [] ∧ line.length < BUFFER_SIZE then
      some (sends s party (line ++ NUL :: (s.buffer party).drop (line.length + 1)) taken)
    else none
  | .inputEnds party taken =>
    if s.place party = .fgets then some (sends s party (s.buffer party) taken) else none
  | .received party chunk =>
    if s.place party = .recv ∧ chunk ≠ [] ∧ chunk.length ≤ BUFFER_SIZE ∧
        chunk <+: (s.channel party.peer).stream then
      some (hears s party chunk)
    else none
  | .receivedEnd party =>
    if s.place party = .recv ∧ ¬ (s.place party.peer).Running ∧
        (s.channel party.peer).stream = [] then
      some (s.goto party .broken (s.buffer party))
    else none
  | .recvFails party =>
    if s.place party = .recv then
      some { s.goto party .broken (s.buffer party) with
        failed := Function.update s.failed party true }
    else none
  | .killed party =>
    if (s.place party).Running then some (s.goto party .killed (s.buffer party)) else none
  | .strays party bytes =>
    if s.place party = .undefined then some (s.send party bytes) else none

/-- The client asks for its first line; its buffer holds whatever the stack held. -/
def start (stack : { bytes : List Byte // bytes.length = BUFFER_SIZE }) : Chat where
  place
    | .client => .fgets
    | .server => .recv
  buffer
    | .client => stack
    | .server => List.replicate BUFFER_SIZE NUL
  channel _ := ⟨[], [], []⟩
  failed _ := false

/-! ## What is sent and what is printed -/

theorem channel_carry (s : Chat) (party : End) (channel : Channel) (e : End) :
    (s.carry party channel).channel e = if e = party then channel else s.channel e :=
  Function.update_apply s.channel party channel e

theorem place_goto (s : Chat) (party : End) (place : Place) (buffer : List Byte) (e : End) :
    (s.goto party place buffer).place e = if e = party then place else s.place e :=
  Function.update_apply s.place party place e

theorem ended_iff (buffer : List Byte) : Ended buffer ↔ NUL ∈ buffer := by
  constructor
  · intro ended
    by_contra clean
    have all : cstr buffer 0 = buffer := by
      apply take_while_all
      intro b member
      simp only [decide_eq_true_eq]
      rintro rfl
      exact clean member
    rw [Ended, all] at ended
    exact Nat.lt_irrefl _ ended
  · intro terminated
    obtain ⟨clean, junk, whole⟩ := holds_cstr terminated
    have length := congrArg List.length whole
    rw [List.drop_zero, List.length_append, List.length_cons] at length
    unfold Ended
    omega

theorem text_clean (buffer : List Byte) : NUL ∉ cstr buffer 0 := by
  intro member
  have other := List.mem_takeWhile_imp member
  simp at other

/-- The bytes received are the text of the buffer, with the zeros behind them. -/
theorem heard_text (clean : NUL ∉ chunk) (room : chunk.length < BUFFER_SIZE) :
    Ended (chunk ++ List.replicate (BUFFER_SIZE - chunk.length) NUL) ∧
      cstr (chunk ++ List.replicate (BUFFER_SIZE - chunk.length) NUL) 0 = chunk := by
  obtain ⟨zeros, some_zero⟩ : ∃ zeros, BUFFER_SIZE - chunk.length = zeros + 1 :=
    ⟨BUFFER_SIZE - chunk.length - 1, by omega⟩
  rw [some_zero, List.replicate_succ]
  constructor
  · rw [ended_iff]
    exact List.mem_append_right _ List.mem_cons_self
  · exact cstr_of_holds ⟨clean, _, rfl⟩

/-- Bytes that fill the buffer leave no room for a terminator. -/
theorem full_not_ended (clean : NUL ∉ chunk) (full : chunk.length = BUFFER_SIZE) :
    ¬ Ended (chunk ++ List.replicate (BUFFER_SIZE - chunk.length) NUL) := by
  rw [ended_iff, full, Nat.sub_self, List.replicate_zero, List.append_nil]
  exact clean

/-- A `recv` has failed, or a party has been ended from outside or has run past
the end of its buffer. -/
def Disturbed (s : Chat) : Prop :=
  ∃ d, s.failed d = true ∨ s.place d = .killed ∨ s.place d = .undefined

/-- What is sent in this direction is printed in its order. -/
structure Ordered (s : Chat) (e : End) : Prop where
  clean : NUL ∉ (s.channel e).sent
  whole : (s.channel e).sent = (s.channel e).printed ++ (s.channel e).stream

/-- The bytes keep their order unless a party has run past its buffer, and only
a disturbance makes a party leave its loop. -/
structure Sound (s : Chat) : Prop where
  ordered : (∀ d, s.place d ≠ .undefined) → ∀ e, Ordered s e
  stays : ∀ e, s.place e = .broken → Disturbed s

theorem peer_ne (e : End) : e.peer ≠ e := by cases e <;> simp [End.peer]

theorem other_end {d e : End} (other : d ≠ e) : d = e.peer := by
  cases d <;> cases e <;> simp [End.peer] at other ⊢

theorem carry_place (s : Chat) (owner : End) (channel : Channel) :
    (s.carry owner channel).place = s.place := rfl

theorem send_place (s : Chat) (party : End) (bytes : List Byte) :
    (s.send party bytes).place = s.place := rfl

/-- A disturbance stays one when a party moves on that is in its loop. -/
theorem disturbed_goto {s : Chat} (running : (s.place party).Running) (place : Place)
    (buffer : List Byte) (disturbed : Disturbed s) : Disturbed (s.goto party place buffer) := by
  obtain ⟨d, failed | gone⟩ := disturbed
  · exact ⟨d, Or.inl failed⟩
  · have other : d ≠ party := by
      rintro rfl
      rcases running with fgets | recv
      · simp [fgets] at gone
      · simp [recv] at gone
    refine ⟨d, Or.inr ?_⟩
    rwa [place_goto, if_neg other]

/-- A party in its loop moves on inside it. -/
theorem stays_goto {s : Chat} (sound : Sound s) (running : (s.place party).Running)
    (place : Place) (inside : place ≠ .broken) (buffer : List Byte) (e : End)
    (left : (s.goto party place buffer).place e = .broken) :
    Disturbed (s.goto party place buffer) := by
  rw [place_goto] at left
  split at left
  · exact absurd left inside
  · exact disturbed_goto running place buffer (sound.stays e left)

/-- The order stays as it is when a party moves on that is in its loop. -/
theorem ordered_goto {s : Chat} (sound : Sound s) (running : (s.place party).Running)
    (buffer : List Byte) (known : ∀ d, (s.goto party place buffer).place d ≠ .undefined)
    (e : End) : Ordered (s.goto party place buffer) e := by
  have before (d : End) : s.place d ≠ .undefined := by
    have after := known d
    rw [place_goto] at after
    split at after
    · rename_i own
      subst own
      rcases running with fgets | recv
      · simp [fgets]
      · simp [recv]
    · exact after
  exact ⟨(sound.ordered before e).clean, (sound.ordered before e).whole⟩

theorem ordered_carry {s : Chat} {owner : End} {channel : Channel}
    (clean : NUL ∉ channel.sent) (whole : channel.sent = channel.printed ++ channel.stream)
    (before : ∀ e, Ordered s e) (e : End) : Ordered (s.carry owner channel) e := by
  by_cases own : e = owner
  · constructor
    · rwa [channel_carry, if_pos own]
    · rwa [channel_carry, if_pos own]
  · constructor
    · rw [channel_carry, if_neg own]
      exact (before e).clean
    · rw [channel_carry, if_neg own]
      exact (before e).whole

/-- Nothing is known of a party that has run past its buffer. -/
theorem strayed_sound {s : Chat} (sound : Sound s) (running : (s.place party).Running)
    (buffer : List Byte) : Sound (s.goto party .undefined buffer) := by
  refine ⟨fun known => absurd ?_ (known party), stays_goto sound running _ (by simp) buffer⟩
  rw [place_goto, if_pos rfl]

theorem sends_sound {s : Chat} (sound : Sound s) (turn : s.place party = .fgets)
    (buffer : List Byte) (taken : Nat) : Sound (sends s party buffer taken) := by
  have running : (s.place party).Running := Or.inl turn
  unfold sends
  split
  · refine ⟨fun known => ?_, stays_goto sound running _ (by simp) buffer⟩
    have before := ordered_goto sound running buffer known
    refine ordered_carry ?_ ?_ before
    · intro member
      rcases List.mem_append.mp member with old | new
      · exact (before party).clean old
      · exact text_clean buffer (List.mem_of_mem_take new)
    · show (s.channel party).sent ++ _ = (s.channel party).printed ++ ((s.channel party).stream ++ _)
      rw [← List.append_assoc]
      exact congrArg (· ++ _) (before party).whole
  · exact strayed_sound sound running buffer

theorem hears_sound {s : Chat} (sound : Sound s) (turn : s.place party = .recv)
    (room : chunk.length ≤ BUFFER_SIZE) (first : chunk <+: (s.channel party.peer).stream) :
    Sound (hears s party chunk) := by
  have running : (s.place party).Running := Or.inr turn
  unfold hears
  dsimp only
  split
  · rename_i ended
    refine ⟨fun known => ?_, stays_goto sound running .fgets (by simp)
      (chunk ++ List.replicate (BUFFER_SIZE - chunk.length) NUL)⟩
    have before := ordered_goto sound running
      (chunk ++ List.replicate (BUFFER_SIZE - chunk.length) NUL) known
    have clean : NUL ∉ (s.channel party.peer).sent := (before party.peer).clean
    have whole : (s.channel party.peer).sent =
        (s.channel party.peer).printed ++ (s.channel party.peer).stream := (before party.peer).whole
    obtain ⟨rest, stream⟩ := first
    have text : NUL ∉ chunk := by
      intro member
      apply clean
      rw [whole, ← stream]
      exact List.mem_append_right _ (List.mem_append_left _ member)
    have short : chunk.length < BUFFER_SIZE :=
      Nat.lt_of_le_of_ne room fun full => full_not_ended text full ended
    refine ordered_carry clean ?_ before
    show (s.channel party.peer).sent = _ ++ _ ++ List.drop chunk.length _
    rw [(heard_text text short).2, whole, ← stream, List.drop_left, List.append_assoc]
  · exact strayed_sound sound running _

/-- A party whose `recv` does not return a message is through with its loop. -/
theorem leaves_sound {s : Chat} (sound : Sound s) (turn : s.place party = .recv)
    (disturbed : Disturbed (s.goto party .broken (s.buffer party))) :
    Sound (s.goto party .broken (s.buffer party)) :=
  ⟨ordered_goto sound (Or.inr turn) _, fun _ _ => disturbed⟩

theorem not_running_cases {place : Place} (ended : ¬ place.Running) :
    place = .broken ∨ place = .killed ∨ place = .undefined := by
  cases place <;> simp [Place.Running] at ended ⊢

theorem step_sound (s : Chat) (a : Action) (t : Chat) (sound : Sound s)
    (stepped : step s a = some t) : Sound t := by
  cases a with
  | typed party line taken =>
    simp only [step] at stepped
    split at stepped <;> cases stepped
    rename_i turn
    exact sends_sound sound turn.1 _ taken
  | inputEnds party taken =>
    simp only [step] at stepped
    split at stepped <;> cases stepped
    rename_i turn
    exact sends_sound sound turn _ taken
  | received party chunk =>
    simp only [step] at stepped
    split at stepped <;> cases stepped
    rename_i turn
    exact hears_sound sound turn.1 turn.2.2.1 turn.2.2.2
  | receivedEnd party =>
    simp only [step] at stepped
    split at stepped <;> cases stepped
    rename_i ended
    obtain ⟨turn, gone, -⟩ := ended
    apply leaves_sound sound turn
    -- the other party is gone, which was a disturbance or followed one
    apply disturbed_goto (Or.inr turn)
    rcases not_running_cases gone with left | killed | strayed
    · exact sound.stays party.peer left
    · exact ⟨party.peer, Or.inr (Or.inl killed)⟩
    · exact ⟨party.peer, Or.inr (Or.inr strayed)⟩
  | recvFails party =>
    simp only [step] at stepped
    split at stepped <;> cases stepped
    rename_i turn
    refine ⟨fun known e => ?_, fun _ _ => ⟨party, Or.inl (Function.update_self _ _ _)⟩⟩
    have before := ordered_goto sound (Or.inr turn) (s.buffer party) known e
    exact ⟨before.clean, before.whole⟩
  | killed party =>
    simp only [step] at stepped
    split at stepped <;> cases stepped
    rename_i running
    exact ⟨ordered_goto sound running _, stays_goto sound running _ (by simp) _⟩
  | strays party bytes =>
    simp only [step] at stepped
    split at stepped <;> cases stepped
    rename_i strayed
    exact ⟨fun known => absurd strayed (known party), sound.stays⟩

theorem start_sound (stack : { bytes : List Byte // bytes.length = BUFFER_SIZE }) :
    Sound (start stack) := by
  refine ⟨fun _ e => ⟨List.not_mem_nil, rfl⟩, fun e left => ?_⟩
  cases e <;> cases left

/-- However the messages are split and merged, whatever the two type, how much
of it `send` takes and which calls fail: a party leaves its loop only behind a
disturbance, and each prints what the other has sent in its order for as long as
neither has run past the end of its buffer. -/
theorem chat_in_order (stack : { bytes : List Byte // bytes.length = BUFFER_SIZE })
    (actions : List Action) :
    Throughout step (fun s => (∀ e, s.place e = .broken → Disturbed s) ∧
      ((∀ d, s.place d ≠ .undefined) →
        ∀ e, (s.channel e).sent = (s.channel e).printed ++ (s.channel e).stream))
      (start stack) actions :=
  throughout_of_invariant step_sound
    (fun _ sound => ⟨sound.stays, fun known e => (sound.ordered known e).whole⟩)
    (start_sound stack) actions

/-! ## Turns -/

/-- The party is asked for a line, the other waits for it, and everything sent
so far has been printed. -/
structure Speaking (s : Chat) (e : End) : Prop where
  turn : s.place e = .fgets
  waits : s.place e.peer = .recv
  printed : ∀ d, (s.channel d).stream = [] ∧ (s.channel d).printed = (s.channel d).sent
  size : (s.buffer e).length = BUFFER_SIZE

/-- One message is under way, both parties wait, and everything sent before has
been printed. -/
structure Travelling (s : Chat) (e : End) : Prop where
  waits : ∀ d, s.place d = .recv
  message : (s.channel e).stream ≠ []
  short : (s.channel e).stream.length < BUFFER_SIZE
  clean : NUL ∉ (s.channel e).stream
  alone : (s.channel e.peer).stream = []
  whole : ∀ d, (s.channel d).sent = (s.channel d).printed ++ (s.channel d).stream

/-- One of the parties has the word, or its message has. -/
def InTurn (s : Chat) : Prop := ∃ e, Speaking s e ∨ Travelling s e

/-- Both parties wait for a message, and none is under way. -/
structure Stuck (s : Chat) : Prop where
  waits : ∀ d, s.place d = .recv
  nothing : ∀ d, (s.channel d).stream = []

/-- Every `send` takes the whole text, every `recv` gets all that is under way
to its party, and no call fails. -/
def wholeStep (s : Chat) (a : Action) : Option Chat :=
  match a with
  | .typed _ line taken => if line.length ≤ taken then step s a else none
  | .inputEnds party taken =>
    if (cstr (s.buffer party) 0).length ≤ taken then step s a else none
  | .received party chunk =>
    if chunk = (s.channel party.peer).stream then step s a else none
  | .receivedEnd _ => step s a
  | .recvFails _ | .killed _ | .strays _ _ => none

/-- The text the party sends next ends in its buffer and is not empty. A typed
line has its end; at the end of its input a party sends what its buffer holds. -/
def Says (s : Chat) : Action → Prop
  | .typed _ line _ => line.head? ≠ some NUL
  | .inputEnds party _ => Ended (s.buffer party) ∧ cstr (s.buffer party) 0 ≠ []
  | .received _ _ | .receivedEnd _ | .recvFails _ | .killed _ | .strays _ _ => True

/-- The text the party sends next is empty. -/
def SaysNothing (s : Chat) : Action → Prop
  | .typed _ line _ => line.head? = some NUL
  | .inputEnds party _ => Ended (s.buffer party) ∧ cstr (s.buffer party) 0 = []
  | .received _ _ | .receivedEnd _ | .recvFails _ | .killed _ | .strays _ _ => False

theorem text_short (ended : Ended buffer) (size : buffer.length = BUFFER_SIZE) :
    (cstr buffer 0).length < BUFFER_SIZE := size ▸ ended

/-- After a `send` in turn both parties wait. -/
theorem sends_waits {s : Chat} (speaking : Speaking s e) (buffer : List Byte) (d : End) :
    (s.goto e .recv buffer).place d = .recv := by
  rw [place_goto]
  split
  · rfl
  · rename_i other
    have peer := other_end other
    exact peer ▸ speaking.waits

/-- The stream behind a `send` in turn. -/
theorem sends_stream {s : Chat} (speaking : Speaking s e) (buffer bytes : List Byte) (d : End) :
    (((s.goto e .recv buffer).send e bytes).channel d).stream = if d = e then bytes else [] := by
  have quiet := fun d => (speaking.printed d).1
  unfold Chat.send
  rw [channel_carry]
  split
  · show (s.channel e).stream ++ bytes = bytes
    rw [quiet, List.nil_append]
  · exact quiet d

/-- The turn passes on with a text, and only with one. -/
theorem sends_in_turn {s : Chat} (speaking : Speaking s e) (size : buffer.length = BUFFER_SIZE)
    (whole : (cstr buffer 0).length ≤ taken) :
    InTurn (sends s e buffer taken) ↔ Ended buffer ∧ cstr buffer 0 ≠ [] := by
  unfold sends
  rw [List.take_of_length_le whole]
  by_cases ended : Ended buffer
  · rw [if_pos ended, and_iff_right ended]
    have stream := sends_stream speaking buffer (cstr buffer 0)
    constructor
    · rintro ⟨d, speaks | travels⟩ nothing
      · have own := speaks.turn
        rw [send_place, sends_waits speaking buffer] at own
        cases own
      · apply travels.message
        rw [stream, nothing, ite_self]
    · intro text
      refine ⟨e, Or.inr ⟨sends_waits speaking buffer, ?_, ?_, ?_, ?_, fun d => ?_⟩⟩
      · rw [stream, if_pos rfl]
        exact text
      · rw [stream, if_pos rfl]
        exact text_short ended size
      · rw [stream, if_pos rfl]
        exact text_clean buffer
      · rw [stream, if_neg (peer_ne e)]
      · rw [stream]
        unfold Chat.send
        rw [channel_carry]
        split
        · show (s.channel e).sent ++ _ = (s.channel e).printed ++ _
          rw [(speaking.printed e).2]
        · show (s.channel d).sent = (s.channel d).printed ++ []
          rw [(speaking.printed d).2, List.append_nil]
  · rw [if_neg ended]
    refine iff_of_false ?_ (fun both => ended both.1)
    rintro ⟨d, speaks | travels⟩
    · have own := speaks.turn
      rw [place_goto] at own
      split at own
      · cases own
      · rename_i other
        have peer := other_end other
        rw [peer, speaking.waits] at own
        cases own
    · have own := travels.waits e
      rw [place_goto, if_pos rfl] at own
      cases own

/-- An empty text leaves both parties in `recv`. -/
theorem sends_stuck {s : Chat} (speaking : Speaking s e) (ended : Ended buffer)
    (nothing : cstr buffer 0 = []) (taken : Nat) : Stuck (sends s e buffer taken) := by
  unfold sends
  rw [if_pos ended, nothing, List.take_nil]
  refine ⟨sends_waits speaking buffer, fun d => ?_⟩
  rw [sends_stream speaking, ite_self]

/-- A message that arrives whole gives its reader the word. -/
theorem hears_in_turn {s : Chat} (travelling : Travelling s e) :
    Speaking (hears s e.peer (s.channel e).stream) e.peer := by
  have back := e.peer_peer
  obtain ⟨ended, text⟩ := heard_text travelling.clean travelling.short
  unfold hears
  rw [if_pos ended, text, back]
  refine ⟨?_, ?_, fun d => ?_, ?_⟩
  · rw [carry_place, place_goto, if_pos rfl]
  · rw [carry_place, place_goto, back, if_neg (peer_ne e).symm]
    exact travelling.waits e
  · rw [channel_carry]
    split
    · refine ⟨List.drop_length, ?_⟩
      exact (travelling.whole e).symm
    · rename_i other
      have peer := other_end other
      subst peer
      have whole := travelling.whole e.peer
      rw [travelling.alone, List.append_nil] at whole
      exact ⟨travelling.alone, whole.symm⟩
  · have short := travelling.short
    show (Function.update s.buffer e.peer _ e.peer).length = BUFFER_SIZE
    rw [Function.update_self, List.length_append, List.length_replicate]
    omega

/-- A typed line has its end, and is empty when a NUL comes first. -/
theorem typed_text (some_byte : line ≠ []) (rest : List Byte) :
    Ended (line ++ NUL :: rest) ∧
      (cstr (line ++ NUL :: rest) 0 = [] ↔ line.head? = some NUL) := by
  constructor
  · rw [ended_iff]
    exact List.mem_append_right _ List.mem_cons_self
  · obtain ⟨b, tail, rfl⟩ := List.exists_cons_of_ne_nil some_byte
    by_cases zero : b = NUL <;> simp [cstr, zero]

theorem typed_length (line rest : List Byte) :
    (cstr (line ++ NUL :: rest) 0).length ≤ line.length := by
  rw [cstr, List.drop_zero, take_while_stops (by simp)]
  exact (List.takeWhile_sublist _).length_le

/-- While one of the parties has the word, it alone is asked for a line. -/
theorem speaking_only {s : Chat} (speaking : Speaking s e) (asked : s.place party = .fgets) :
    party = e := by
  by_contra other
  rw [other_end other, speaking.waits] at asked
  cases asked

/-- The steps in turn are a text of the party that has the word and the message
that arrives. -/
theorem whole_step_cases {s t : Chat} (turn : InTurn s) (stepped : wholeStep s a = some t) :
    (∃ e buffer taken, Speaking s e ∧ buffer.length = BUFFER_SIZE ∧
      (cstr buffer 0).length ≤ taken ∧ t = sends s e buffer taken ∧
      (Says s a ↔ Ended buffer ∧ cstr buffer 0 ≠ []) ∧
      (SaysNothing s a ↔ Ended buffer ∧ cstr buffer 0 = [])) ∨
    (∃ e, Travelling s e ∧ t = hears s e.peer (s.channel e).stream ∧ Says s a ∧
      ¬ SaysNothing s a) := by
  obtain ⟨e, speaking | travelling⟩ := turn
  · cases a with
    | typed party line taken =>
      simp only [wholeStep, step] at stepped
      split at stepped
      · rename_i whole
        split at stepped <;> cases stepped
        rename_i asked
        obtain ⟨turn, some_byte, room⟩ := asked
        obtain rfl := speaking_only speaking turn
        obtain ⟨ended, empty⟩ := typed_text some_byte ((s.buffer party).drop (line.length + 1))
        have size : (line ++ NUL :: (s.buffer party).drop (line.length + 1)).length =
            BUFFER_SIZE := by
          have own := speaking.size
          rw [List.length_append, List.length_cons, List.length_drop]
          omega
        refine Or.inl ⟨party, _, taken, speaking, size, (typed_length _ _).trans whole, rfl, ?_, ?_⟩
        · rw [and_iff_right ended]
          exact (not_congr empty).symm
        · rw [and_iff_right ended]
          exact empty.symm
      · cases stepped
    | inputEnds party taken =>
      simp only [wholeStep, step] at stepped
      split at stepped
      · rename_i whole
        split at stepped <;> cases stepped
        rename_i turn
        obtain rfl := speaking_only speaking turn
        exact Or.inl ⟨party, _, taken, speaking, speaking.size, whole, rfl, Iff.rfl, Iff.rfl⟩
      · cases stepped
    | received party chunk =>
      simp only [wholeStep, step] at stepped
      split at stepped
      · rename_i whole
        split at stepped <;> cases stepped
        rename_i gets
        exact absurd (whole.trans (speaking.printed party.peer).1) gets.2.1
      · cases stepped
    | receivedEnd party =>
      simp only [wholeStep, step] at stepped
      split at stepped <;> cases stepped
      rename_i gone
      obtain ⟨-, ended, -⟩ := gone
      apply absurd _ ended
      by_cases own : party.peer = e
      · exact own ▸ Or.inl speaking.turn
      · exact other_end own ▸ Or.inr speaking.waits
    | recvFails party => cases stepped
    | killed party => cases stepped
    | strays party bytes => cases stepped
  · have nobody (party : End) : s.place party ≠ .fgets := by simp [travelling.waits]
    cases a with
    | typed party line taken =>
      simp [wholeStep, step, nobody] at stepped
    | inputEnds party taken =>
      simp [wholeStep, step, nobody] at stepped
    | received party chunk =>
      simp only [wholeStep, step] at stepped
      split at stepped
      · rename_i whole
        split at stepped <;> cases stepped
        rename_i gets
        have reader : party = e.peer := by
          by_contra other
          have own : party = e := (other_end other).trans e.peer_peer
          apply gets.2.1
          rw [whole, own]
          exact travelling.alone
        subst reader
        rw [e.peer_peer] at whole
        exact Or.inr ⟨e, travelling, whole ▸ rfl, trivial, not_false⟩
      · cases stepped
    | receivedEnd party =>
      simp [wholeStep, step, travelling.waits, Place.Running] at stepped
    | recvFails party => cases stepped
    | killed party => cases stepped
    | strays party bytes => cases stepped

theorem whole_step_in_turn (s : Chat) (a : Action) (t : Chat) (turn : InTurn s)
    (stepped : wholeStep s a = some t) : InTurn t ↔ Says s a := by
  rcases whole_step_cases turn stepped with
    ⟨e, buffer, taken, speaking, size, whole, rfl, some_text, -⟩ | ⟨e, travelling, rfl, fine, -⟩
  · exact (sends_in_turn speaking size whole).trans some_text.symm
  · exact iff_of_true ⟨e.peer, Or.inl (hears_in_turn travelling)⟩ fine

/-- Where both wait for nothing, only a failing call or an ending goes on. -/
theorem stuck_for_good {s t : Chat} (stuck : Stuck s) (stepped : step s a = some t) :
    ∃ e, a = .recvFails e ∨ a = .killed e := by
  cases a with
  | typed party line taken => simp [step, stuck.waits] at stepped
  | inputEnds party taken => simp [step, stuck.waits] at stepped
  | received party chunk =>
    simp only [step, stuck.nothing] at stepped
    split at stepped <;> cases stepped
    rename_i gets
    exact absurd (List.prefix_nil.mp gets.2.2.2) gets.2.1
  | receivedEnd party => simp [step, stuck.waits, Place.Running] at stepped
  | recvFails party => exact ⟨party, Or.inl rfl⟩
  | killed party => exact ⟨party, Or.inr rfl⟩
  | strays party bytes => simp [step, stuck.waits] at stepped

/-- When every message is taken and arrives whole, the parties keep taking turns
if and only if every text they send ends in its buffer and is not empty: then
one is always asked for a line with all sent before printed in full, or one
message is under way. Behind an empty text both wait, until a call fails or a
party is ended from outside. -/
theorem takes_turns_iff (stack : { bytes : List Byte // bytes.length = BUFFER_SIZE })
    (actions : List Action) :
    (Throughout wholeStep InTurn (start stack) actions ↔
      Along wholeStep Says (start stack) actions) ∧
    ∀ s a t, Throughout wholeStep InTurn (start stack) actions →
      exec wholeStep (start stack) actions = some s → SaysNothing s a → wholeStep s a = some t →
        Stuck t ∧ ∀ b u, step t b = some u → ∃ e, b = .recvFails e ∨ b = .killed e := by
  have speaking : Speaking (start stack) .client := ⟨rfl, rfl, fun d => ⟨rfl, rfl⟩, stack.2⟩
  refine ⟨throughout_iff_along whole_step_in_turn ⟨.client, Or.inl speaking⟩, ?_⟩
  intro s a t turns ran silent stepped
  have turn := throughout_iff.mp turns actions List.prefix_rfl s ran
  rcases whole_step_cases turn stepped with
    ⟨e, buffer, taken, speaking, -, -, rfl, -, nothing⟩ | ⟨e, -, -, -, talks⟩
  · obtain ⟨ended, empty⟩ := nothing.mp silent
    have stuck := sends_stuck speaking ended empty taken
    exact ⟨stuck, fun b u => stuck_for_good stuck⟩
  · exact absurd silent talks

end OsCourse.ChatTurns
