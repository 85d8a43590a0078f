import OsCourse.CInt
import OsCourse.TransferVerdict

/-! The loop of `receiveFile` in `stnc.c`, result by result of its `recv`
calls. TCP may cut what the client sends anywhere; the loop stops behind the
chunk with which the announced size is reached. -/
namespace OsCourse.ReceiveFile
open Stdio CInt ControlMessages

/-- Where the loop is with the results given. -/
inductive Progress where
  /-- behind the loop, with what was given to `fwrite` -/
  | left (written : List Byte)
  /-- in a `recv` that has no result yet -/
  | waits (written : List Byte)
  /-- `totalBytesRead` leaves `int` -/
  | overflow
  deriving DecidableEq, Repr

/-- The `recv` loop of `receiveFile`. -/
def receiveLoop (fileSize : Int) :
    (recvs : List Recv) → (totalBytesRead : Int) → (written : List Byte) → Progress
  | [], totalBytesRead, written =>
    if totalBytesRead < fileSize then .waits written else .left written
  | recv :: more, totalBytesRead, written =>
    if totalBytesRead < fileSize then
      match recv with
      | .data buffer =>
        match checked 32 (totalBytesRead + buffer.length) with
        | none => .overflow
        | some totalBytesRead => receiveLoop fileSize more totalBytesRead (written ++ buffer)
      | .closed | .error => .left written
    else .left written

/-- What arrives on the data connection: chunks, and behind them the end of the
stream or an error. -/
structure Arrival where
  chunks : List (List Byte)
  closing : Recv
  some_byte : ∀ chunk ∈ chunks, chunk ≠ []
  asked : ∀ chunk ∈ chunks, chunk.length ≤ BUFFER_SIZE
  closes : closing = .closed ∨ closing = .error

def Arrival.recvs (arrival : Arrival) : List Recv := arrival.chunks.map .data ++ [arrival.closing]

/-- The shortest run of leading chunks that has the bytes, or all chunks when
even these have too few. -/
def ShortestRun (fileSize : Nat) (chunks run : List (List Byte)) : Prop :=
  run <+: chunks ∧ (fileSize ≤ run.flatten.length ∨ run = chunks) ∧
    ∀ shorter, shorter <+: run → shorter ≠ run → shorter.flatten.length < fileSize

/-- The leading chunks taken while bytes are missing. -/
def leading : (missing : Nat) → List (List Byte) → List (List Byte)
  | 0, _ => []
  | _ + 1, [] => []
  | missing + 1, chunk :: chunks => chunk :: leading (missing + 1 - chunk.length) chunks

/-! ## Leading chunks -/

theorem shortest_nil (enough : fileSize = 0 ∨ chunks = []) : ShortestRun fileSize chunks [] := by
  refine ⟨List.nil_prefix, ?_, fun shorter start other => absurd (List.prefix_nil.mp start) other⟩
  rcases enough with rfl | rfl
  · exact Or.inl (Nat.zero_le _)
  · exact Or.inr rfl

theorem leading_shortest (missing : Nat) (chunks : List (List Byte)) :
    ShortestRun missing chunks (leading missing chunks) := by
  induction chunks generalizing missing with
  | nil =>
    cases missing with
    | zero => exact shortest_nil (Or.inl rfl)
    | succ missing => exact shortest_nil (Or.inr rfl)
  | cons chunk chunks ih =>
    cases missing with
    | zero => exact shortest_nil (Or.inl rfl)
    | succ missing =>
      obtain ⟨start, enough, shortest⟩ := ih (missing + 1 - chunk.length)
      rw [leading]
      refine ⟨(List.prefix_cons_inj chunk).mpr start, ?_, ?_⟩
      · simp only [List.flatten_cons, List.length_append]
        rcases enough with enough | all
        · exact Or.inl (by omega)
        · exact Or.inr (by rw [all])
      · intro shorter initial other
        cases shorter with
        | nil => exact Nat.succ_pos missing
        | cons first shorter =>
          obtain ⟨rfl, initial⟩ := List.cons_prefix_cons.mp initial
          have fewer := shortest shorter initial fun same => other (by rw [same])
          simp only [List.flatten_cons, List.length_append]
          omega

/-- Only the last of the chunks taken goes beyond what was missing. -/
theorem leading_length (missing : Nat) (asked : ∀ chunk ∈ chunks, chunk.length ≤ BUFFER_SIZE) :
    (leading missing chunks).flatten.length < missing + BUFFER_SIZE := by
  have room : 0 < BUFFER_SIZE := by decide
  induction chunks generalizing missing with
  | nil => cases missing <;> simp [leading, room]
  | cons chunk chunks ih =>
    cases missing with
    | zero => simpa [leading] using room
    | succ missing =>
      have first := asked chunk List.mem_cons_self
      rw [leading, List.flatten_cons, List.length_append]
      by_cases enough : missing + 1 ≤ chunk.length
      · rw [Nat.sub_eq_zero_of_le enough, leading]
        simp only [List.flatten_nil, List.length_nil]
        omega
      · have rest := ih (missing + 1 - chunk.length)
          fun other member => asked other (List.mem_cons_of_mem _ member)
        omega

theorem leading_all (few : chunks.flatten.length < missing) : leading missing chunks = chunks := by
  induction chunks generalizing missing with
  | nil => cases missing <;> rfl
  | cons chunk chunks ih =>
    simp only [List.flatten_cons, List.length_append] at few
    cases missing with
    | zero => omega
    | succ missing => rw [leading, ih (by omega)]

/-! ## The loop -/

theorem receive_loop_full {fileSize total : Nat} (recvs : List Recv) (written : List Byte)
    (full : fileSize ≤ total) :
    receiveLoop fileSize recvs total written = .left written := by
  have done : ¬ (total : Int) < fileSize := by omega
  unfold receiveLoop
  cases recvs with
  | nil => exact if_neg done
  | cons recv more => exact if_neg done

section Loop
variable {fileSize : Nat} (small : fileSize < 2 ^ 31 - BUFFER_SIZE)
include small

/-- A chunk is taken while bytes are missing; the total stays in `int`. -/
theorem receive_loop_chunk (more : List Recv) (written : List Byte) (asked : chunk.length ≤ BUFFER_SIZE)
    (still : total < fileSize) :
    receiveLoop fileSize (.data chunk :: more) total written =
      receiveLoop fileSize more ((total + chunk.length : Nat) : Int) (written ++ chunk) := by
  have sum : checked 32 ((total : Int) + chunk.length) = some ((total : Int) + chunk.length) := by
    unfold BUFFER_SIZE at small asked
    exact checked_int (by omega) (by omega)
  have missing : (total : Int) < fileSize := by omega
  rw [receiveLoop, if_pos missing]
  simp only [sum, Nat.cast_add]

/-- Once the bytes missing are among those that have come, the loop is left,
whatever comes behind them. -/
theorem receive_loop_enough (chunks : List (List Byte)) (more : List Recv) (total : Nat)
    (written : List Byte) (asked : ∀ chunk ∈ chunks, chunk.length ≤ BUFFER_SIZE)
    (enough : fileSize ≤ total + chunks.flatten.length) :
    receiveLoop fileSize (chunks.map .data ++ more) total written =
      .left (written ++ (leading (fileSize - total) chunks).flatten) := by
  induction chunks generalizing total written with
  | nil =>
    have full : fileSize ≤ total := by simpa using enough
    rw [receive_loop_full _ _ full, Nat.sub_eq_zero_of_le full, leading, List.flatten_nil,
      List.append_nil]
  | cons chunk chunks ih =>
    rcases Nat.lt_or_ge total fileSize with still | full
    · obtain ⟨missing, count⟩ : ∃ missing, fileSize - total = missing + 1 :=
        ⟨fileSize - total - 1, by omega⟩
      simp only [List.flatten_cons, List.length_append] at enough
      rw [List.map_cons, List.cons_append,
        receive_loop_chunk small _ _ (asked chunk List.mem_cons_self) still,
        ih (total + chunk.length) _ (fun other member => asked other (List.mem_cons_of_mem _ member))
          (by omega), count, leading, List.flatten_cons, List.append_assoc, Nat.sub_add_eq, count]
    · rw [receive_loop_full _ _ full, Nat.sub_eq_zero_of_le full, leading, List.flatten_nil,
        List.append_nil]

/-- Chunks with too few bytes are all taken. -/
theorem receive_loop_few (chunks : List (List Byte)) (more : List Recv) (total : Nat)
    (written : List Byte) (asked : ∀ chunk ∈ chunks, chunk.length ≤ BUFFER_SIZE)
    (few : total + chunks.flatten.length < fileSize) :
    receiveLoop fileSize (chunks.map .data ++ more) total written =
      receiveLoop fileSize more ((total + chunks.flatten.length : Nat) : Int)
        (written ++ chunks.flatten) := by
  induction chunks generalizing total written with
  | nil => simp
  | cons chunk chunks ih =>
    simp only [List.flatten_cons, List.length_append] at few
    rw [List.map_cons, List.cons_append,
      receive_loop_chunk small _ _ (asked chunk List.mem_cons_self) (by omega),
      ih (total + chunk.length) _ (fun other member => asked other (List.mem_cons_of_mem _ member))
        (by omega), List.flatten_cons, List.length_append, List.append_assoc, Nat.add_assoc]

/-- The loop takes the leading chunks, and is left at the latest where the stream ends. -/
theorem receive_loop_eq (arrival : Arrival) :
    receiveLoop fileSize arrival.recvs 0 [] = .left (leading fileSize arrival.chunks).flatten := by
  unfold Arrival.recvs
  rcases Nat.lt_or_ge arrival.chunks.flatten.length fileSize with few | enough
  · have loop := receive_loop_few small arrival.chunks [arrival.closing] 0 [] arrival.asked (by omega)
    have still : ((0 + arrival.chunks.flatten.length : Nat) : Int) < fileSize := by omega
    rw [Nat.cast_zero] at loop
    rw [loop, leading_all few, List.nil_append]
    rcases arrival.closes with closed | error
    · rw [closed]
      exact if_pos still
    · rw [error]
      exact if_pos still
  · have loop := receive_loop_enough small arrival.chunks [arrival.closing] 0 [] arrival.asked
      (by omega)
    rwa [Nat.cast_zero, Nat.sub_zero, List.nil_append] at loop

end Loop

/-! ## The file received -/

/-- What the loop has written is the shortest run of leading chunks with
`fileSize` bytes, or everything, however the stream is cut and closed. -/
theorem receive_loop_shortest (fileSize : Nat) (small : fileSize < 2 ^ 31 - BUFFER_SIZE)
    (arrival : Arrival) :
    ∃ run, ShortestRun fileSize arrival.chunks run ∧
      receiveLoop fileSize arrival.recvs 0 [] = .left run.flatten ∧
      run.flatten <+: arrival.chunks.flatten ∧ run.flatten.length < fileSize + BUFFER_SIZE ∧
      (arrival.chunks.flatten.length = fileSize → run.flatten = arrival.chunks.flatten) ∧
      ∀ arrived, arrived <+: arrival.chunks → fileSize ≤ arrived.flatten.length →
        receiveLoop fileSize (arrived.map .data) 0 [] = .left run.flatten := by
  have shortest := leading_shortest fileSize arrival.chunks
  have initial : (leading fileSize arrival.chunks).flatten <+: arrival.chunks.flatten := by
    obtain ⟨rest, whole⟩ := shortest.1
    exact ⟨rest.flatten, by rw [← List.flatten_append, whole]⟩
  refine ⟨leading fileSize arrival.chunks, shortest, receive_loop_eq small arrival, initial,
    leading_length fileSize arrival.asked, ?_, ?_⟩
  · intro exactly
    rcases shortest.2.1 with enough | all
    · exact initial.eq_of_length_le (by omega)
    · rw [all]
  · rintro arrived ⟨rest, whole⟩ enough
    have come : ∀ chunk ∈ arrived, chunk.length ≤ BUFFER_SIZE := fun chunk member =>
      arrival.asked chunk (whole ▸ List.mem_append_left _ member)
    have loop (more : List Recv) := receive_loop_enough small arrived more 0 [] come (by omega)
    have alone := loop []
    have later := loop (rest.map .data ++ [arrival.closing])
    -- what comes behind does not count
    rw [← List.append_assoc, ← List.map_append, whole] at later
    rw [List.append_nil, ← later] at alone
    exact alone.trans (receive_loop_eq small arrival)

/-- One chunk of 40 bytes and one of 2, for a file of 41. -/
def twoChunks : Arrival where
  chunks := [List.replicate 40 0x61#8, [0x62, 0x63]]
  closing := .closed
  some_byte := by decide
  asked := by decide
  closes := Or.inl rfl

theorem receive_loop_shortest_at :
    ∃ run, ShortestRun 41 twoChunks.chunks run ∧
      receiveLoop (41 : Nat) twoChunks.recvs 0 [] = .left run.flatten ∧
      run.flatten <+: twoChunks.chunks.flatten ∧ run.flatten.length < 41 + BUFFER_SIZE ∧
      (twoChunks.chunks.flatten.length = 41 → run.flatten = twoChunks.chunks.flatten) ∧
      ∀ arrived, arrived <+: twoChunks.chunks → 41 ≤ arrived.flatten.length →
        receiveLoop (41 : Nat) (arrived.map .data) 0 [] = .left run.flatten :=
  receive_loop_shortest 41 (by decide) twoChunks

/-! ## The loop of a whole transfer -/

theorem slt_of_nat (small : n < 2 ^ 31) (small' : m < 2 ^ 31) :
    (BitVec.ofNat 32 n).slt (BitVec.ofNat 32 m) = decide (n < m) := by
  rw [BitVec.slt_eq_decide, BitVec.toInt_eq_toNat_of_lt, BitVec.toInt_eq_toNat_of_lt,
    BitVec.toNat_ofNat, BitVec.toNat_ofNat, Nat.mod_eq_of_lt (by omega), Nat.mod_eq_of_lt (by omega)]
  · simp
  · rw [BitVec.toNat_ofNat]
    omega
  · rw [BitVec.toNat_ofNat]
    omega

/-- The loop in the model of a transfer gives the same chunks to `fwrite`. The
total is the same `int` there, as its 32 bits. -/
theorem transfer_loop_eq (small : fileSize < 2 ^ 31 - BUFFER_SIZE) (chunks : List (List Byte))
    (some_byte : ∀ chunk ∈ chunks, chunk ≠ []) (asked : ∀ chunk ∈ chunks, chunk.length ≤ BUFFER_SIZE)
    (total : Nat) (room : total < 2 ^ 31) :
    TransferVerdict.receiveLoop (BitVec.ofNat 32 fileSize) (chunks ++ [[]]) (BitVec.ofNat 32 total) =
      leading (fileSize - total) chunks := by
  induction chunks generalizing total with
  | nil =>
    have none_taken : leading (fileSize - total) [] = [] := by
      cases fileSize - total <;> rfl
    rw [List.nil_append, TransferVerdict.receiveLoop, if_pos rfl, ite_self, none_taken]
  | cons chunk chunks ih =>
    have compare := slt_of_nat room (Nat.lt_of_lt_of_le small (Nat.sub_le _ _))
    rw [List.cons_append, TransferVerdict.receiveLoop, compare]
    rcases Nat.lt_or_ge total fileSize with still | full
    · obtain ⟨missing, count⟩ : ∃ missing, fileSize - total = missing + 1 :=
        ⟨fileSize - total - 1, by omega⟩
      have first := asked chunk List.mem_cons_self
      have next : total + chunk.length < 2 ^ 31 := by
        unfold BUFFER_SIZE at small first
        omega
      rw [if_pos (decide_eq_true still), if_neg (some_byte chunk List.mem_cons_self),
        ← BitVec.ofNat_add,
        ih (fun other member => some_byte other (List.mem_cons_of_mem _ member))
          (fun other member => asked other (List.mem_cons_of_mem _ member)) _ next,
        count, leading, Nat.sub_add_eq, count]
    · rw [if_neg (by simpa using full), Nat.sub_eq_zero_of_le full, leading]

theorem written_whole (written : Nat → Nat) (buffers : List (List Byte)) (i : Nat)
    (complete : ∀ j, ∀ buffer ∈ buffers, buffer.length ≤ written j) :
    TransferVerdict.writtenBytes written buffers i = buffers.flatten := by
  induction buffers generalizing i with
  | nil => rfl
  | cons buffer buffers ih =>
    rw [TransferVerdict.writtenBytes, List.take_of_length_le (complete i buffer List.mem_cons_self),
      ih (i + 1) fun j other member => complete j other (List.mem_cons_of_mem _ member),
      List.flatten_cons]

/-- A stream transfer whose `fwrite` calls succeed stores what this loop writes. -/
theorem transfer_stores (w : TransferVerdict.Surroundings) (d : FileChecksum.Directory)
    (small : fileSize < 2 ^ 31 - BUFFER_SIZE) (arrival : Arrival)
    (ready : w.socket ∧ w.bind ∧ w.accept ∧ w.create)
    (writable : TransferVerdict.canWrite (d.lookup "received_file.bin") = true)
    (recvs : w.recvs = arrival.chunks ++ [[]]) (complete : ∀ i, BUFFER_SIZE ≤ w.written i) :
    ∃ written, receiveLoop fileSize arrival.recvs 0 [] = .left written ∧
      TransferVerdict.receiveFile w d false (BitVec.ofNat 32 fileSize) =
        .returned 0 (TransferVerdict.store d "received_file.bin" written) := by
  refine ⟨_, receive_loop_eq small arrival, ?_⟩
  obtain ⟨socket, bind, accept, create⟩ := ready
  have buffers := transfer_loop_eq small arrival.chunks arrival.some_byte arrival.asked 0 (by omega)
  have whole := written_whole w.written (leading fileSize arrival.chunks) 0 fun j buffer member =>
    (arrival.asked buffer ((leading_shortest _ _).1.subset member)).trans (complete j)
  rw [Nat.sub_zero] at buffers
  unfold TransferVerdict.receiveFile
  simp only [socket, bind, accept, create, writable, recvs, not_true_eq_false, ↓reduceIte, or_self,
    Bool.false_eq_true]
  rw [show (0 : BitVec 32) = BitVec.ofNat 32 0 from rfl, buffers, whole]

end OsCourse.ReceiveFile
