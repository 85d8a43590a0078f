import OsCourse.TransferVerdict

/-! A test server of `stnc.c` from one test to the next, with everything it
prints. The flag `quiet` is handed through the whole conversation, so that the
run with it and the run without it can be compared. -/
namespace OsCourse.QuietMode
open Stdio CString Decimal ControlMessages FileChecksum TransferVerdict

/-- What the server prints. -/
inductive Printed where
  /-- `"Client disconnected\n"` -/
  | disconnected
  /-- `"Client: %s"` -/
  | client (text : List Byte)
  /-- `"File size will be: %d\n"` -/
  | fileSize (n : BitVec 32)
  /-- `"Checksum will be: 0x%08x\n"` -/
  | checksum (n : BitVec 32)
  /-- `"Start time: %ld.%06ld\n"` -/
  | startTime (sec usec : Option Int)
  /-- `"Test: %s\n"` -/
  | test (name : List Byte)
  /-- `"File received successfully\n"` and its like, by the transport -/
  | transferred (test : Test)
  /-- `"Generated checksum for file '%s': 0x%08x\n"` -/
  | generated (filename : String) (checksum : BitVec 32)
  | verdict (line : Line)
  /-- `"End time: %ld.%06ld\n"` and `"Time took: "` -/
  | endTime
  /-- `"Time difference: %d.%06d seconds\n"` -/
  | timeDifference
  /-- `"Error deleting file '%s'\n"` -/
  | deleteError (filename : String)
  /-- `"File '%s' deleted successfully\n"` -/
  | deleted (filename : String)
  /-- `"ERROR recv() failed\n"` -/
  | recvError

/-- What the server does in a test: the values it parses, the bytes a transfer
brings, the files as they are behind it and behind the deletion, its exit, and
its lines. -/
inductive Event where
  | fileSize (n : BitVec 32)
  | checksum (n : BitVec 32)
  | startTime (sec usec : Option Int)
  | testName (name : List Byte)
  | received (bytes : Option (List Byte))
  | files (d : Directory)
  | exits
  | prints (line : Printed)

def Event.isPrinted : Event → Bool
  | .prints _ => true
  | _ => false

/-- What arrives for one test: the buffer as it stood before, the results of
`recv` on the control connection, the transfer, and what `remove` does: it
fails, or leads the name to a place that nothing else leads to. -/
structure Conversation where
  messageBuffer : List Byte
  recvs : List Recv
  transfer : Surroundings
  removed : Option Nat

/-- What was done, and the working directory if the server then waits for a
client again. -/
structure Served where
  events : List Event
  goesOn : Option Directory

def Served.after (events : List Event) (s : Served) : Served := ⟨events ++ s.events, s.goesOn⟩

/-- `if (!quiet) printf(...)` -/
def unlessQuiet (quiet : Bool) (line : Printed) : List Event :=
  if quiet then [] else [.prints line]

/-- The server exits behind an error message. -/
def recvFailed : Served := ⟨[.prints .recvError, .exits], none⟩

/-- The server waits for a message that does not come. -/
def waiting : Served := ⟨[], none⟩

/-- `deleteFile`, behind which the server is ready for the next test. -/
def deleteFile (quiet : Bool) (filename : String) (d : Directory) : (removed : Option Nat) → Served
  | none => ⟨[.prints (.deleteError filename), .files d], some d⟩
  | some vacant =>
    let d := { d with place := Function.update d.place filename vacant }
    ⟨unlessQuiet quiet (.deleted filename) ++ [.files d], some d⟩

/-- From the transfer to the end of the test. `calculateChecksum` need not end. -/
def finishTest (quiet : Bool) (c : Conversation) (fileSize checksum recievedSize : BitVec 32)
    (d : Directory) : Served :=
  match calculateChecksum d "recived.txt" with
  | none => ⟨[.files d], none⟩
  | some recieved_file_checksum =>
    let lines := (verdict quiet d checksum recievedSize fileSize).getD []
    (deleteFile quiet "recived.txt" d c.removed).after
      (.files d :: unlessQuiet quiet (.generated "recived.txt" recieved_file_checksum) ++
        lines.map (fun line => .prints (.verdict line)) ++ unlessQuiet quiet .endTime ++
        [.prints .timeDifference])

/-- The chain of `strcmp` on the test name. -/
def testNamed (name : List Byte) : Option Test :=
  [.ipv4Tcp, .ipv4Udp, .ipv6Tcp, .ipv6Udp, .udsDgram, .udsStream, .mmap, .pipe].find?
    fun test : Test => test.name = name

/-- The transfer of the file under the name of the test. An unknown name
transfers nothing. -/
def runTest (quiet : Bool) (d : Directory) (c : Conversation) (fileSize checksum : BitVec 32)
    (name : List Byte) : Served :=
  match testNamed name with
  | none => finishTest quiet c fileSize checksum 0 d
  | some test =>
    let bytes := delivered c.transfer d fileSize test
    let success := if bytes.isSome then unlessQuiet quiet (.transferred test) else []
    match receive c.transfer d fileSize test with
    | .returned recievedSize d =>
      (finishTest quiet c fileSize checksum recievedSize d).after (.received bytes :: success)
    | .exited => recvFailed
    | .faulted => ⟨[], none⟩

/-- The last of the four messages. -/
def hearName (quiet : Bool) (d : Directory) (c : Conversation) (fileSize checksum : BitVec 32) :
    List Recv → Served
  | .data fourth :: _ =>
    let name := cstr (recvInto cleared fourth) 0
    (runTest quiet d c fileSize checksum name).after
      (.testName name :: unlessQuiet quiet (.test name))
  | [] => waiting
  | _ => recvFailed

def hearTime (quiet : Bool) (d : Directory) (c : Conversation) (fileSize checksum : BitVec 32) :
    List Recv → Served
  | .data third :: more =>
    let start := scanTime (cstr (recvInto cleared third) 0)
    (hearName quiet d c fileSize checksum more).after
      (.startTime start.1 start.2 :: unlessQuiet quiet (.startTime start.1 start.2))
  | [] => waiting
  | _ => recvFailed

def hearChecksum (quiet : Bool) (d : Directory) (c : Conversation) (fileSize : BitVec 32) :
    List Recv → Served
  | .data second :: more =>
    let checksum := scanUnsigned (cstr (recvInto cleared second) 0) 0
    (hearTime quiet d c fileSize checksum more).after
      (.checksum checksum :: unlessQuiet quiet (.checksum checksum))
  | [] => waiting
  | _ => recvFailed

/-- The text of a first message. -/
def firstText (c : Conversation) (first : List Byte) : List Byte :=
  cstr (recvInto c.messageBuffer first) 0

/-- One round of the server's loop. A quiet server does not read the file size
off the message. -/
def converse (quiet : Bool) (d : Directory) (c : Conversation) : Served :=
  match c.recvs with
  | .data first :: more =>
    let text := firstText c first
    let fileSize := if quiet then 0 else atoi text
    (hearChecksum quiet d c fileSize more).after
      (unlessQuiet quiet (.client text) ++
        .fileSize fileSize :: unlessQuiet quiet (.fileSize fileSize))
  | .closed :: _ => ⟨unlessQuiet quiet .disconnected, some d⟩
  | .error :: _ => recvFailed
  | [] => waiting

/-- The server over all that arrives. -/
def runServer (quiet : Bool) (d : Directory) : List Conversation → List Event
  | [] => []
  | c :: rest =>
    let served := converse quiet d c
    served.events ++ (served.goesOn.map fun d => runServer quiet d rest).getD []

/-! ## The property and its condition -/

/-- Everything but the lines printed. -/
def observed (events : List Event) : List Event := events.filter fun e => !e.isPrinted

/-- The quiet run parses, receives, stores and leaves what the other one does. -/
def ChangesOnlyPrinting (d : Directory) (arriving : List Conversation) : Prop :=
  observed (runServer true d arriving) = observed (runServer false d arriving)

/-- The first message, if there is one, is read as the size 0. -/
def SizeZero (c : Conversation) : Prop :=
  ∀ first more, c.recvs = .data first :: more → atoi (firstText c first) = 0

/-- Every test the server takes up announces the size 0. -/
def SizesZero (d : Directory) : List Conversation → Prop
  | [] => True
  | c :: rest =>
    SizeZero c ∧ ∀ next, (converse true d c).goesOn = some next → SizesZero next rest

/-! ## What does not depend on the flag -/

@[simp] theorem observed_append (front back : List Event) :
    observed (front ++ back) = observed front ++ observed back := List.filter_append ..

@[simp] theorem observed_unlessQuiet (quiet : Bool) (line : Printed) :
    observed (unlessQuiet quiet line) = [] := by
  cases quiet <;> rfl

@[simp] theorem observed_lines (lines : List Line) :
    observed (lines.map fun line => .prints (.verdict line)) = [] := by
  induction lines with
  | nil => rfl
  | cons line rest ih => exact ih

theorem observed_cons (e : Event) (rest : List Event) :
    observed (e :: rest) = if e.isPrinted then observed rest else e :: observed rest := by
  cases e <;> rfl

/-- Two servers have done the same but for what they print. -/
structure Same (s t : Served) : Prop where
  events : observed s.events = observed t.events
  goesOn : s.goesOn = t.goesOn

theorem same_refl (s : Served) : Same s s := ⟨rfl, rfl⟩

theorem same_after (same : Same s t) (before : observed front = observed front') :
    Same (s.after front) (t.after front') := by
  refine ⟨?_, same.goesOn⟩
  simp only [Served.after, observed_append, before, same.events]

theorem delete_same (filename : String) (d : Directory) (removed : Option Nat) :
    Same (deleteFile true filename d removed) (deleteFile false filename d removed) := by
  cases removed with
  | none => exact same_refl _
  | some vacant => exact ⟨rfl, rfl⟩

theorem finish_same (c : Conversation) (fileSize checksum recievedSize : BitVec 32)
    (d : Directory) : Same (finishTest true c fileSize checksum recievedSize d)
      (finishTest false c fileSize checksum recievedSize d) := by
  unfold finishTest
  cases calculateChecksum d "recived.txt" with
  | none => exact same_refl _
  | some recieved_file_checksum =>
    apply same_after (delete_same "recived.txt" d c.removed)
    simp only [List.cons_append, observed_cons, observed_append, observed_unlessQuiet,
      observed_lines]

theorem test_same (d : Directory) (c : Conversation) (fileSize checksum : BitVec 32)
    (name : List Byte) : Same (runTest true d c fileSize checksum name)
      (runTest false d c fileSize checksum name) := by
  unfold runTest
  cases testNamed name with
  | none => exact finish_same c fileSize checksum 0 d
  | some test =>
    dsimp only
    cases receive c.transfer d fileSize test with
    | returned recievedSize d' =>
      apply same_after (finish_same c fileSize checksum recievedSize d')
      cases (delivered c.transfer d fileSize test).isSome <;> rfl
    | exited => exact same_refl _
    | faulted => exact same_refl _

/-- The flag can tell in the answer to a message only, not in waiting for one
nor at the end of the stream. -/
theorem heard_same {hear hear' : List Recv → Served}
    (data : ∀ bytes more, Same (hear (.data bytes :: more)) (hear' (.data bytes :: more)))
    (waiting : hear [] = hear' []) (closed : ∀ more, hear (.closed :: more) = hear' (.closed :: more))
    (error : ∀ more, hear (.error :: more) = hear' (.error :: more)) (recvs : List Recv) :
    Same (hear recvs) (hear' recvs) := by
  cases recvs with
  | nil => exact waiting ▸ same_refl _
  | cons result more =>
    cases result with
    | data bytes => exact data bytes more
    | closed => exact closed more ▸ same_refl _
    | error => exact error more ▸ same_refl _

theorem name_same (d : Directory) (c : Conversation) (fileSize checksum : BitVec 32)
    (recvs : List Recv) : Same (hearName true d c fileSize checksum recvs)
      (hearName false d c fileSize checksum recvs) := by
  apply heard_same <;> intros
  · exact same_after (test_same ..) rfl
  all_goals rfl

theorem time_same (d : Directory) (c : Conversation) (fileSize checksum : BitVec 32)
    (recvs : List Recv) : Same (hearTime true d c fileSize checksum recvs)
      (hearTime false d c fileSize checksum recvs) := by
  apply heard_same <;> intros
  · exact same_after (name_same ..) rfl
  all_goals rfl

theorem checksum_same (d : Directory) (c : Conversation) (fileSize : BitVec 32)
    (recvs : List Recv) : Same (hearChecksum true d c fileSize recvs)
      (hearChecksum false d c fileSize recvs) := by
  apply heard_same <;> intros
  · exact same_after (time_same ..) rfl
  all_goals rfl

/-- The flag is consulted for the file size only. -/
theorem converse_same (d : Directory) (zero : SizeZero c) :
    Same (converse true d c) (converse false d c) := by
  unfold converse
  cases recvs : c.recvs with
  | nil => exact same_refl _
  | cons result more =>
    cases result with
    | data first =>
      simp only [↓reduceIte, Bool.false_eq_true, zero first more recvs]
      exact same_after (checksum_same ..) rfl
    | closed => exact ⟨rfl, rfl⟩
    | error => exact same_refl _

/-- Before anything else a server that is sent a message parses a size. -/
theorem converse_first (quiet : Bool) (d : Directory) (sent : c.recvs = .data first :: more) :
    ∃ later, observed (converse quiet d c).events =
      .fileSize (if quiet then 0 else atoi (firstText c first)) :: later := by
  unfold converse
  simp only [sent]
  refine ⟨observed (hearChecksum quiet d c
    (if quiet then 0 else atoi (firstText c first)) more).events, ?_⟩
  rw [Served.after, observed_append, observed_append, observed_unlessQuiet, List.nil_append,
    observed_cons, observed_unlessQuiet]
  rfl

theorem run_observed (quiet : Bool) (d : Directory) (c : Conversation) (rest : List Conversation) :
    observed (runServer quiet d (c :: rest)) = observed (converse quiet d c).events ++
      ((converse quiet d c).goesOn.map fun d => observed (runServer quiet d rest)).getD [] := by
  rw [runServer, observed_append]
  cases (converse quiet d c).goesOn <;> rfl

/-- Quiet mode changes only printing exactly as long as every test announces
the size 0, which is all a quiet server can take it for. -/
theorem changes_only_printing_iff (d : Directory) (arriving : List Conversation) :
    ChangesOnlyPrinting d arriving ↔ SizesZero d arriving := by
  unfold ChangesOnlyPrinting
  induction arriving generalizing d with
  | nil => exact iff_of_true rfl trivial
  | cons c rest ih =>
    rw [run_observed, run_observed, SizesZero]
    by_cases zero : SizeZero c
    · obtain ⟨events, goesOn⟩ := converse_same d zero
      rw [events, ← goesOn, List.append_cancel_left_eq, and_iff_right zero]
      cases (converse true d c).goesOn with
      | none => simp
      | some next => simpa using ih next
    · refine iff_of_false (fun same => zero fun first more sent => ?_) fun all => zero all.1
      obtain ⟨later, quiet⟩ := converse_first true d sent
      obtain ⟨later', loud⟩ := converse_first false d sent
      rw [quiet, loud, List.cons_append, List.cons_append] at same
      have sizes := Event.fileSize.inj (List.cons.inj same).1
      exact sizes.symm

/-- A TCP test that announces one byte and delivers it. -/
def oneByteTest : Conversation :=
  ⟨cleared, [.data [49#8], .data [49#8], .data [48#8], .data Test.ipv4Tcp.name], oneByteArrives, none⟩

/-- The quiet server takes the size for 0 and stores an empty file. -/
theorem quiet_server_stores_nothing :
    ¬ ∀ (d : Directory) (arriving : List Conversation), ChangesOnlyPrinting d arriving := by
  intro only
  have zero := (changes_only_printing_iff ⟨fun _ => 0, fun _ => none⟩ [oneByteTest]).mp (only _ _)
  exact absurd (zero.1 _ _ rfl) (by decide)

end OsCourse.QuietMode
