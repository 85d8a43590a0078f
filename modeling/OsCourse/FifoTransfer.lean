import OsCourse.ControlMessages
import OsCourse.Transition

/-! `sendFileFifo` and `receiveFileFifo` of `stnc.c` at work on one FIFO in two
processes. Each takes one step for a call it makes, a `write` to the FIFO one
for each piece that finds room. -/
namespace OsCourse.FifoTransfer
open Stdio ControlMessages Transition

/-- Where `sendFileFifo` stands. It is done when it has closed the FIFO, or with
an `open` that failed. -/
inductive Sender where
  | openFrom
  | openFifo
  | read
  /-- In a `write`, with the bytes of the buffer that are still to go. -/
  | write (left : List Byte)
  | close
  | returned
  | failed
  deriving DecidableEq

/-- Where `receiveFileFifo` stands. -/
inductive Receiver where
  | openTo
  | openFifo
  | read
  | write (buffer : List Byte)
  | returned
  | failed
  deriving DecidableEq

/-- The two routines, the bytes of the source file that are still to be read,
those in the FIFO, and those of the destination file. -/
structure System where
  unread : List Byte
  sender : Sender
  fifo : List Byte
  receiver : Receiver
  dest : List Byte
  deriving DecidableEq

/-- The sender has come to the FIFO. -/
def Sender.present : Sender → Bool
  | .openFrom | .failed => false
  | _ => true

/-- The receiver has come to the FIFO and has not left it. -/
def Receiver.present : Receiver → Bool
  | .openTo | .returned | .failed => false
  | _ => true

/-- The sender's calls: whether a file could be opened, how many bytes a `read`
returns, and how many a `write` gets into the FIFO at a time. -/
inductive SenderCall where
  | openFrom (opened : Bool)
  | openFifo (opened : Bool)
  | read (count : Nat)
  | write (count : Nat)
  | close
  deriving DecidableEq

inductive ReceiverCall where
  | openTo (opened : Bool)
  | openFifo (opened : Bool)
  | read (count : Nat)
  | write
  deriving DecidableEq

/-- `sendFileFifo`. The FIFO opens for writing when there is somebody to read
it, and `read` returns 0 at the end of the file. -/
def sendFileFifo (capacity : Nat) (s : System) (call : SenderCall) : Option System :=
  match s.sender, call with
  | .openFrom, .openFrom opened =>
    some { s with sender := if opened then .openFifo else .failed }
  | .openFifo, .openFifo opened =>
    if opened ∧ ¬ s.receiver.present then none
    else some { s with sender := if opened then .read else .failed }
  | .read, .read count =>
    if count = 0 ∧ s.unread = [] then some { s with sender := .close }
    else if 0 < count ∧ count ≤ BUFFER_SIZE ∧ count ≤ s.unread.length then
      some { s with sender := .write (s.unread.take count), unread := s.unread.drop count }
    else none
  | .write left, .write count =>
    if 0 < count ∧ count ≤ left.length ∧ s.fifo.length + count ≤ capacity ∧
        s.receiver.present then
      some { s with
        sender := if count = left.length then .read else .write (left.drop count)
        fifo := s.fifo ++ left.take count }
    else none
  | .close, .close => some { s with sender := .returned }
  | _, _ => none

/-- `receiveFileFifo`. The FIFO opens for reading when there is somebody to
write to it, and `read` returns 0 when it is empty and has been closed. -/
def receiveFileFifo (s : System) (call : ReceiverCall) : Option System :=
  match s.receiver, call with
  | .openTo, .openTo opened =>
    if opened then some { s with receiver := .openFifo, dest := [] }
    else some { s with receiver := .failed }
  | .openFifo, .openFifo opened =>
    if opened ∧ ¬ s.sender.present then none
    else some { s with receiver := if opened then .read else .failed }
  | .read, .read count =>
    if count = 0 ∧ s.fifo = [] ∧ s.sender = .returned then some { s with receiver := .returned }
    else if 0 < count ∧ count ≤ BUFFER_SIZE ∧ count ≤ s.fifo.length then
      some { s with receiver := .write (s.fifo.take count), fifo := s.fifo.drop count }
    else none
  | .write buffer, .write => some { s with receiver := .read, dest := s.dest ++ buffer }
  | _, _ => none

inductive Action where
  | send (call : SenderCall)
  | receive (call : ReceiverCall)
  deriving DecidableEq

def step (capacity : Nat) (s : System) : Action → Option System
  | .send call => sendFileFifo capacity s call
  | .receive call => receiveFileFifo s call

/-- Both routines are called; the destination file may have been there before. -/
def start (content former : List Byte) : System := ⟨content, .openFrom, [], .openTo, former⟩

/-! ## Where the bytes are -/

/-- The bytes in the sender's buffer. -/
def Sender.held : Sender → List Byte
  | .write left => left
  | _ => []

/-- The sender has left its loop. -/
def Sender.done : Sender → Bool
  | .close | .returned => true
  | _ => false

/-- The bytes the receiver has taken from the FIFO. -/
def System.received (s : System) : List Byte :=
  match s.receiver with
  | .openTo => []
  | .write buffer => s.dest ++ buffer
  | _ => s.dest

/-- The calls a sender still has to make beside those for its bytes. -/
def Sender.toGo : Sender → Nat
  | .openFrom => 4
  | .openFifo => 3
  | .read | .write _ => 2
  | .close => 1
  | .returned | .failed => 0

def Receiver.toGo : Receiver → Nat
  | .openTo => 3
  | .openFifo => 2
  | .read => 1
  | .write buffer => buffer.length + 2
  | .returned | .failed => 0

/-- Every call brings this down: a byte it moves counts for less behind it. -/
def System.toGo (s : System) : Nat :=
  5 * s.unread.length + 4 * s.sender.held.length + 3 * s.fifo.length + s.sender.toGo +
    s.receiver.toGo

/-- What a call of the sender does to the data. -/
structure Sent (s t : System) : Prop where
  receiver : t.receiver = s.receiver
  dest : t.dest = s.dest
  stream : t.fifo ++ t.sender.held ++ t.unread = s.fifo ++ s.sender.held ++ s.unread
  running : s.sender ≠ .returned
  writing : ∀ left, t.sender = .write left → left ≠ []
  done : t.sender.done = true → t.unread = [] ∨ s.sender.done = true ∧ t.unread = s.unread
  onward : t.toGo < s.toGo

/-- A call that moves no byte. -/
theorem control_sent {next : Sender} (before : s.sender.held = []) (after : ∀ left, next ≠ .write left)
    (fewer : next.toGo < s.sender.toGo)
    (done : next.done = true → s.unread = [] ∨ s.sender.done = true) :
    Sent s { s with sender := next } := by
  have nothing : next.held = [] := by
    cases next with
    | write left => exact absurd rfl (after left)
    | _ => rfl
  refine ⟨rfl, rfl, ?_, ?_, fun left same => absurd same (after left), ?_, ?_⟩
  · simp only [nothing, before]
  · intro returned
    rw [returned] at fewer
    exact Nat.not_lt_zero _ fewer
  · exact fun finished => (done finished).imp_right fun already => ⟨already, rfl⟩
  · simp only [System.toGo, nothing, before]
    omega

theorem sender_sends (stepped : sendFileFifo capacity s call = some t) : Sent s t := by
  unfold sendFileFifo at stepped
  split at stepped
  · rename_i opened now
    cases stepped
    cases opened with
    | true => exact control_sent (by rw [now]; rfl) nofun (by rw [now]; decide) nofun
    | false => exact control_sent (by rw [now]; rfl) nofun (by rw [now]; decide) nofun
  · rename_i opened now
    split at stepped
    · cases stepped
    · cases stepped
      cases opened with
      | true => exact control_sent (by rw [now]; rfl) nofun (by rw [now]; decide) nofun
      | false => exact control_sent (by rw [now]; rfl) nofun (by rw [now]; decide) nofun
  · rename_i count now
    split at stepped
    · rename_i finished
      cases stepped
      exact control_sent (by rw [now]; rfl) nofun (by rw [now]; decide) fun _ => Or.inl finished.2
    · split at stepped
      · rename_i asked
        cases stepped
        refine ⟨rfl, rfl, by simp [now, Sender.held], by simp [now], ?_, nofun, ?_⟩
        · rintro left ⟨⟩ nothing
          rcases List.take_eq_nil_iff.mp nothing with none_asked | none_left
          · omega
          · simp only [none_left, List.length_nil] at asked
            omega
        · simp only [System.toGo, Sender.toGo, Sender.held, now, List.length_take,
            List.length_drop, List.length_nil]
          omega
      · cases stepped
  · rename_i left count now
    split at stepped
    · rename_i room
      cases stepped
      split
      · rename_i whole
        refine ⟨rfl, rfl, by simp [now, Sender.held, whole], by simp [now], nofun, nofun, ?_⟩
        simp only [System.toGo, Sender.toGo, Sender.held, now, List.length_append,
          List.length_take, List.length_nil]
        omega
      · refine ⟨rfl, rfl, by simp [now, Sender.held], by simp [now], ?_, nofun, ?_⟩
        · rintro later ⟨⟩ nothing
          have whole := List.drop_eq_nil_iff.mp nothing
          omega
        · simp only [System.toGo, Sender.toGo, Sender.held, now, List.length_append,
            List.length_take, List.length_drop]
          omega
    · cases stepped
  · rename_i now
    cases stepped
    exact control_sent (by rw [now]; rfl) nofun (by rw [now]; decide) fun _ =>
      Or.inr (by rw [now]; rfl)
  · cases stepped

/-- What a call of the receiver does to the data. -/
structure Received (s t : System) : Prop where
  sender : t.sender = s.sender
  unread : t.unread = s.unread
  stream : t.receiver ≠ .failed →
    s.receiver ≠ .failed ∧ t.received ++ t.fifo = s.received ++ s.fifo
  ended : t.receiver = .returned → t.fifo = [] ∧ s.sender = .returned
  onward : t.toGo < s.toGo

theorem receiver_receives (stepped : receiveFileFifo s call = some t) : Received s t := by
  unfold receiveFileFifo at stepped
  split at stepped
  · rename_i now
    split at stepped <;> cases stepped
    · exact ⟨rfl, rfl, fun _ => by simp [now, System.received], by simp,
        by simp [System.toGo, Receiver.toGo, now]⟩
    · exact ⟨rfl, rfl, by simp, by simp, by simp [System.toGo, Receiver.toGo, now]⟩
  · rename_i now
    split at stepped
    · cases stepped
    · cases stepped
      split
      · exact ⟨rfl, rfl, fun _ => by simp [now, System.received], by simp,
          by simp [System.toGo, Receiver.toGo, now]⟩
      · exact ⟨rfl, rfl, by simp, by simp, by simp [System.toGo, Receiver.toGo, now]⟩
  · rename_i now
    split at stepped
    · rename_i finished
      cases stepped
      exact ⟨rfl, rfl, fun _ => by simp [now, System.received], fun _ => finished.2,
        by simp [System.toGo, Receiver.toGo, now]⟩
    · split at stepped
      · cases stepped
        refine ⟨rfl, rfl, fun _ => by simp [now, System.received], by simp, ?_⟩
        simp only [System.toGo, Receiver.toGo, now, List.length_take, List.length_drop]
        omega
      · cases stepped
  · rename_i now
    cases stepped
    refine ⟨rfl, rfl, fun _ => by simp [now, System.received], by simp, ?_⟩
    simp only [System.toGo, Receiver.toGo, now]
    omega
  · cases stepped

/-- No byte is lost, repeated or out of its turn, and neither routine comes to
its end before the bytes have. -/
structure Flows (content : List Byte) (s : System) : Prop where
  conserved : s.receiver ≠ .failed →
    s.received ++ (s.fifo ++ s.sender.held ++ s.unread) = content
  writing : ∀ left, s.sender = .write left → left ≠ []
  all_read : s.sender.done = true → s.unread = []
  all_received : s.receiver = .returned → s.fifo = [] ∧ s.sender = .returned

theorem start_flows (content former : List Byte) : Flows content (start content former) :=
  ⟨fun _ => rfl, nofun, nofun, nofun⟩

theorem step_flows (s : System) (a : Action) (t : System) (flows : Flows content s)
    (stepped : step capacity s a = some t) : Flows content t := by
  cases a with
  | send call =>
    obtain ⟨receiver, dest, stream, running, writing, done, -⟩ := sender_sends stepped
    have received : t.received = s.received := by
      simp only [System.received, receiver, dest]
    refine ⟨fun alive => ?_, writing, fun finished => ?_, fun ended => ?_⟩
    · rw [received, stream]
      exact flows.conserved (receiver ▸ alive)
    · rcases done finished with empty | ⟨before, same⟩
      · exact empty
      · exact same.trans (flows.all_read before)
    · exact absurd (flows.all_received (receiver ▸ ended)).2 running
  | receive call =>
    obtain ⟨sender, unread, stream, ended, -⟩ := receiver_receives stepped
    refine ⟨fun alive => ?_, ?_, fun finished => ?_, fun done => ?_⟩
    · obtain ⟨before, same⟩ := stream alive
      rw [sender, unread, ← flows.conserved before]
      simp only [← List.append_assoc, same]
    · rw [sender]
      exact flows.writing
    · rw [unread]
      exact flows.all_read (sender ▸ finished)
    · rw [sender]
      exact ended done

/-- However the calls interleave and split the data: with both routines returned
behind their loops, the destination file holds what the source file holds. -/
theorem transfer_delivers (capacity : Nat) (content former : List Byte) (actions : List Action)
    (ran : exec (step capacity) (start content former) actions = some s)
    (sent : s.sender = .returned) (received : s.receiver = .returned) : s.dest = content := by
  obtain ⟨conserved, -, all_read, all_received⟩ :=
    exec_invariant step_flows (start_flows content former) ran
  have all := conserved (by rw [received]; exact Receiver.noConfusion)
  rw [(all_received received).1, all_read (by rw [sent]; rfl), sent] at all
  simpa [System.received, received, Sender.held] using all

/-- Three bytes through a FIFO of two, taken out in other pieces than put in. -/
def threeBytes : List Action :=
  [.receive (.openTo true), .send (.openFrom true), .send (.openFifo true), .send (.read 3),
    .send (.write 2), .receive (.openFifo true), .receive (.read 1), .send (.write 1),
    .send (.read 0), .receive .write, .receive (.read 2), .send .close, .receive .write,
    .receive (.read 0)]

theorem three_bytes_delivered :
    ∃ s, exec (step 2) (start [1, 2, 3] [9]) threeBytes = some s ∧ s.dest = [1, 2, 3] :=
  ⟨_, rfl, transfer_delivers 2 [1, 2, 3] [9] threeBytes rfl rfl rfl⟩

/-! ## The way to the end -/

theorem step_onward (stepped : step capacity s a = some t) : t.toGo < s.toGo := by
  cases a with
  | send call => exact (sender_sends stepped).onward
  | receive call => exact (receiver_receives stepped).onward

/-- Neither routine has come back with an error. -/
def System.alive (s : System) : Prop := s.sender ≠ .failed ∧ s.receiver ≠ .failed

def System.finished (s : System) : Prop := s.sender = .returned ∧ s.receiver = .returned

/-- A receiver that is not done waits only for bytes or for the sender's end. -/
theorem receiver_possible (alive : s.alive) (present : s.sender.present)
    (running : s.receiver ≠ .returned)
    (readable : s.receiver = .read → s.fifo ≠ [] ∨ s.sender = .returned) :
    ∃ a t, step capacity s a = some t ∧ t.alive := by
  cases now : s.receiver with
  | openTo =>
    refine ⟨.receive (.openTo true), { s with receiver := .openFifo, dest := [] }, ?_, alive.1, nofun⟩
    simp [step, receiveFileFifo, now]
  | openFifo =>
    refine ⟨.receive (.openFifo true), { s with receiver := .read }, ?_, alive.1, nofun⟩
    simp [step, receiveFileFifo, now, present]
  | read =>
    by_cases empty : s.fifo = []
    · have closed := (readable now).resolve_left fun some => some empty
      refine ⟨.receive (.read 0), { s with receiver := .returned }, ?_, alive.1, nofun⟩
      simp [step, receiveFileFifo, now, empty, closed]
    · have there : 1 ≤ s.fifo.length := List.length_pos_of_ne_nil empty
      refine ⟨.receive (.read 1),
        { s with receiver := .write (s.fifo.take 1), fifo := s.fifo.drop 1 }, ?_, alive.1, nofun⟩
      simp [step, receiveFileFifo, now, there, BUFFER_SIZE]
  | write buffer =>
    exact ⟨.receive .write, { s with receiver := .read, dest := s.dest ++ buffer },
      by simp [step, receiveFileFifo, now], alive.1, nofun⟩
  | returned => exact absurd now running
  | failed => exact absurd now alive.2

/-- While they are not both done one of them can make its next call. -/
theorem call_possible (room : 0 < capacity) (flows : Flows content s) (alive : s.alive)
    (running : ¬ s.finished) : ∃ a t, step capacity s a = some t ∧ t.alive := by
  have receiving : s.sender ≠ .returned → s.receiver ≠ .returned := fun sending ended =>
    sending (flows.all_received ended).2
  cases now : s.sender with
  | openFrom =>
    refine ⟨.send (.openFrom true), { s with sender := .openFifo }, ?_, nofun, alive.2⟩
    simp [step, sendFileFifo, now]
  | openFifo =>
    by_cases present : s.receiver.present
    · refine ⟨.send (.openFifo true), { s with sender := .read }, ?_, nofun, alive.2⟩
      simp [step, sendFileFifo, now, present]
    · refine receiver_possible alive (by rw [now]; rfl) (receiving (by simp [now])) fun reading => ?_
      exact absurd (by rw [reading]; rfl) present
  | read =>
    by_cases empty : s.unread = []
    · refine ⟨.send (.read 0), { s with sender := .close }, ?_, nofun, alive.2⟩
      simp [step, sendFileFifo, now, empty]
    · have there : 1 ≤ s.unread.length := List.length_pos_of_ne_nil empty
      refine ⟨.send (.read 1),
        { s with sender := .write (s.unread.take 1), unread := s.unread.drop 1 }, ?_, nofun, alive.2⟩
      simp [step, sendFileFifo, now, there, BUFFER_SIZE]
  | write left =>
    by_cases free : s.fifo.length + 1 ≤ capacity ∧ s.receiver.present
    · have there : 1 ≤ left.length := List.length_pos_of_ne_nil (flows.writing left now)
      refine ⟨.send (.write 1), { s with
        sender := if 1 = left.length then .read else .write (left.drop 1)
        fifo := s.fifo ++ left.take 1 }, ?_, ?_, alive.2⟩
      · simp [step, sendFileFifo, now, there, free]
      · change (if 1 = left.length then Sender.read else .write (left.drop 1)) ≠ .failed
        split <;> exact nofun
    · -- a reader of a full FIFO finds something in it
      refine receiver_possible alive (by rw [now]; rfl) (receiving (by simp [now])) fun reading => ?_
      refine Or.inl fun empty => free ⟨?_, by rw [reading]; rfl⟩
      rw [empty]
      exact room
  | close =>
    exact ⟨.send .close, { s with sender := .returned }, by simp [step, sendFileFifo, now], nofun,
      alive.2⟩
  | returned =>
    apply receiver_possible alive (by rw [now]; rfl) (fun ended => running ⟨now, ended⟩)
    exact fun _ => Or.inr now
  | failed => exact absurd now alive.1

/-- The two never wait for each other, and no run goes on for ever. -/
theorem transfer_completes (room : 0 < capacity) (flows : Flows content s) (alive : s.alive) :
    ∃ t, Reachable (step capacity) s t ∧ t.finished := by
  by_cases finished : s.finished
  · exact ⟨s, reachable_refl s, finished⟩
  · obtain ⟨a, middle, stepped, onward⟩ := call_possible room flows alive finished
    have shorter := step_onward stepped
    obtain ⟨t, reached, done⟩ :=
      transfer_completes room (step_flows s a middle flows stepped) onward
    exact ⟨t, reachable_cons stepped reached, done⟩
termination_by s.toGo

end OsCourse.FifoTransfer
