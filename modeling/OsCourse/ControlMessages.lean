import OsCourse.CString
import OsCourse.Decimal

/-! The control conversation of a test in `stnc.c`: the four messages of
`run_client` and the four `recv` calls of `run_server` that take them in. The
messages have no terminator and no length, and `sleep(0.1)`, which is
`sleep(0)`, does not keep them apart: TCP delivers one stream of bytes. -/
namespace OsCourse.ControlMessages
open Stdio CString Decimal

def BUFFER_SIZE : Nat := 32768
def BUFFER_SIZE_MESSAGE : Nat := 1024

/-- The tests the client announces and the server dispatches on. -/
inductive Test where
  | ipv4Tcp
  | ipv4Udp
  | ipv6Tcp
  | ipv6Udp
  | udsDgram
  | udsStream
  | mmap
  | pipe
  deriving DecidableEq, Repr

def ascii (s : String) : List Byte := s.toList.map fun c => BitVec.ofNat 8 c.toNat

def Test.name : Test → List Byte
  | .ipv4Tcp => ascii "ipv4 tcp"
  | .ipv4Udp => ascii "ipv4 udp"
  | .ipv6Tcp => ascii "ipv6 tcp"
  | .ipv6Udp => ascii "ipv6 udp"
  | .udsDgram => ascii "uds dgram"
  | .udsStream => ascii "uds stream"
  | .mmap => ascii "mmap"
  | .pipe => ascii "pipe"

/-- The length `run_client` gives `send` for the name. -/
def Test.sent : Test → Nat
  | .ipv4Tcp | .ipv4Udp | .ipv6Tcp | .ipv6Udp => 8
  | .udsDgram => 9
  | .udsStream => 10
  | .mmap | .pipe => 5

def Test.message (test : Test) : List Byte := (test.name ++ [NUL]).take test.sent

/-- What a client announces. A start time with more digits would not fit
`start_time_str`. -/
structure Announcement where
  filesize : BitVec 32
  checksum : BitVec 32
  sec : Nat
  usec : Nat
  test : Test
  sec_fits : sec < 10 ^ 12
  usec_fits : usec < 10 ^ 6

namespace Announcement

/-- `"%d"` of the `int` `filesize` -/
def filesizeStr (a : Announcement) : List Byte := printInt a.filesize.toInt

/-- `"%d"` of the `uint32_t` `checksum` -/
def checksumStr (a : Announcement) : List Byte := printInt a.checksum.toInt

/-- `"%ld.%06ld"` of the start time -/
def startTimeStr (a : Announcement) : List Byte := decimal a.sec ++ DOT :: padded 6 a.usec

/-- What `run_client` sends on the control connection. -/
def stream (a : Announcement) : List Byte :=
  a.filesizeStr ++ a.checksumStr ++ a.startTimeStr ++ a.test.message

end Announcement

/-- The server's variables behind the four receptions. Parts of the start time
that `sscanf` has not assigned are `none`. -/
structure Heard where
  fileSize : BitVec 32
  checksum : BitVec 32
  sec : Option Int
  usec : Option Int
  test : List Byte
  deriving DecidableEq

def Announcement.heard (a : Announcement) : Heard :=
  ⟨a.filesize, a.checksum, some a.sec, some a.usec, a.test.name⟩

/-- `recv` into `messageBuffer` and the terminator behind the bytes received. -/
def recvInto (messageBuffer chunk : List Byte) : List Byte :=
  chunk ++ NUL :: messageBuffer.drop (chunk.length + 1)

/-- `bzero(messageBuffer, BUFFER_SIZE_MESSAGE)` -/
def cleared : List Byte := List.replicate BUFFER_SIZE_MESSAGE NUL

/-- The part of `run_server` that takes in the announcement, from the results
of its `recv` calls. With fewer results than it asks for it waits. -/
def takeAnnouncement (quiet : Bool) (messageBuffer : List Byte) :
    List (List Byte) → Option Heard
  | first :: second :: third :: fourth :: _ =>
    let messageBuffer := recvInto messageBuffer first
    let fileSize := if quiet then 0 else atoi (cstr messageBuffer 0)
    let messageBuffer := recvInto cleared second
    let checksum := scanUnsigned (cstr messageBuffer 0) 0
    let messageBuffer := recvInto cleared third
    let start := scanTime (cstr messageBuffer 0)
    let messageBuffer := recvInto cleared fourth
    some ⟨fileSize, checksum, start.1, start.2, cstr messageBuffer 0⟩
  | _ => none

/-- The length each of the `recv` calls asks for. -/
def asks : Nat → Nat
  | 0 => BUFFER_SIZE_MESSAGE - 1
  | _ => 20

/-- A way a stream may reach the server: each `recv` gets at least one byte
and no more than it asks for, and four results or all of the stream arrive. -/
structure Segmentation (stream : List Byte) where
  chunks : List (List Byte)
  unread : List Byte
  whole : chunks.flatten ++ unread = stream
  some_byte : ∀ chunk ∈ chunks, chunk ≠ []
  asked : ∀ i chunk, chunks[i]? = some chunk → chunk.length ≤ asks i
  ended : chunks.length = 4 ∨ chunks.length < 4 ∧ unread = []

/-! ## The property and its condition -/

/-- The server ends up with what the client announced. -/
def HeardRight (quiet : Bool) (messageBuffer : List Byte) (a : Announcement)
    (arrival : Segmentation a.stream) : Prop :=
  takeAnnouncement quiet messageBuffer arrival.chunks = some a.heard

/-- The `recv` results are the messages, one by one, but for the terminator
behind the last one and for the one number that reads the same without its sign. -/
def InFrames (a : Announcement) (chunks : List (List Byte)) : Prop :=
  ∃ first second fourth, chunks = [first, second, a.startTimeStr, fourth] ∧
    (first = a.filesizeStr ∧ second = a.checksumStr ∨
      a.checksum = BitVec.ofNat 32 (2 ^ 31) ∧
        first = a.filesizeStr ++ [MINUS] ∧ second = decimal (2 ^ 31)) ∧
    a.test.name <+: fourth

/-! ## Names and texts -/

theorem name_clean (test : Test) : NUL ∉ test.name ∧ DOT ∉ test.name := by
  cases test <;> decide

theorem message_name (test : Test) :
    test.message = test.name ∨ test.message = test.name ++ [NUL] := by
  cases test <;> decide

theorem name_letter (test : Test) : ∃ b rest, test.name = b :: rest ∧ isDigit b = false := by
  cases test <;> exact ⟨_, _, rfl, by decide⟩

/-- What a string function finds in the buffer. -/
theorem cstr_received (messageBuffer chunk : List Byte) :
    cstr (recvInto messageBuffer chunk) 0 = chunk.takeWhile fun b => decide (b ≠ NUL) :=
  take_while_stops (by simp) _ _

theorem cstr_clean (messageBuffer : List Byte) (clean : NUL ∉ chunk) :
    cstr (recvInto messageBuffer chunk) 0 = chunk := by
  rw [cstr_received]
  apply take_while_all
  intro b member
  simp only [decide_eq_true_eq]
  exact fun nul => clean (nul ▸ member)

@[simp] theorem nul_ne_dot : NUL ≠ DOT := by decide

@[simp] theorem nul_ne_minus : NUL ≠ MINUS := by decide

theorem digit_clean (own : isDigit b = true) : b ≠ NUL ∧ b ≠ DOT := by
  refine ⟨?_, ?_⟩
  · rintro rfl
    exact absurd own (by decide)
  · rintro rfl
    exact absurd own (by decide)

theorem print_clean (z : Int) : NUL ∉ printInt z ∧ DOT ∉ printInt z := by
  refine ⟨fun member => ?_, fun member => ?_⟩
  · rcases print_chars z _ member with own | minus
    · exact (digit_clean own).1 rfl
    · exact absurd minus (by decide)
  · rcases print_chars z _ member with own | minus
    · exact (digit_clean own).2 rfl
    · exact absurd minus (by decide)

theorem digits_clean {text : List Byte} (digits : ∀ b ∈ text, isDigit b = true) : NUL ∉ text ∧ DOT ∉ text :=
  ⟨fun member => (digit_clean (digits _ member)).1 rfl,
    fun member => (digit_clean (digits _ member)).2 rfl⟩

/-- What stands in front of the one dot of the stream. -/
def beforeDot (a : Announcement) : List Byte := a.filesizeStr ++ a.checksumStr ++ decimal a.sec

def behindDot (a : Announcement) : List Byte := padded 6 a.usec ++ a.test.message

theorem stream_dot (a : Announcement) : a.stream = beforeDot a ++ DOT :: behindDot a := by
  simp [Announcement.stream, Announcement.startTimeStr, beforeDot, behindDot]

theorem before_clean (a : Announcement) : NUL ∉ beforeDot a ∧ DOT ∉ beforeDot a := by
  have size := print_clean a.filesize.toInt
  have checksum := print_clean a.checksum.toInt
  have sec := digits_clean (decimal_digits a.sec)
  simp only [beforeDot, Announcement.filesizeStr, Announcement.checksumStr, List.mem_append,
    not_or]
  exact ⟨⟨⟨size.1, checksum.1⟩, sec.1⟩, ⟨size.2, checksum.2⟩, sec.2⟩

theorem usec_clean (a : Announcement) : NUL ∉ padded 6 a.usec ∧ DOT ∉ padded 6 a.usec :=
  digits_clean (padded_spec a.usec_fits (by omega)).2.1

theorem time_text_clean (sec : Int) (fits : usec < 10 ^ 6) :
    NUL ∉ printInt sec ++ DOT :: padded 6 usec := by
  have micro := (digits_clean (padded_spec fits (by omega)).2.1).1
  simp [(print_clean sec).1, micro]

theorem start_time_clean (a : Announcement) : NUL ∉ a.startTimeStr := by
  rw [Announcement.startTimeStr, ← print_nat]
  exact time_text_clean a.sec a.usec_fits

theorem behind_no_dot (a : Announcement) : DOT ∉ behindDot a := by
  have name := (name_clean a.test).2
  rw [behindDot, List.mem_append, not_or]
  refine ⟨(usec_clean a).2, ?_⟩
  rcases message_name a.test with same | same <;> rw [same]
  · exact name
  · simp [name, nul_ne_dot.symm]

/-- A text splits in one way around a mark that occurs once. -/
theorem split_once {mark : Byte} {front back front' back' : List Byte} (clean : mark ∉ front)
    (clean' : mark ∉ back) (same : front' ++ mark :: back' = front ++ mark :: back) :
    front' = front ∧ back' = back := by
  induction front generalizing front' with
  | nil =>
    cases front' with
    | nil => exact ⟨rfl, (List.cons.inj same).2⟩
    | cons b front' =>
      have tail : front' ++ mark :: back' = back := (List.cons.inj same).2
      exact absurd (tail ▸ List.mem_append_right _ List.mem_cons_self) clean'
  | cons b front ih =>
    cases front' with
    | nil =>
      have head : mark = b := (List.cons.inj same).1
      exact absurd (head ▸ List.mem_cons_self) clean
    | cons b' front' =>
      obtain ⟨rfl, rest⟩ := List.cons.inj same
      obtain ⟨rfl, rfl⟩ := ih (fun member => clean (List.mem_cons_of_mem _ member)) rest
      exact ⟨rfl, rfl⟩

/-- The only terminator of the stream is its last byte, so whatever is
received in front of something is clean. -/
theorem front_clean (a : Announcement) (whole : front ++ back = a.stream) (more : back ≠ []) :
    NUL ∉ front := by
  have clean : NUL ∉ beforeDot a ++ DOT :: (padded 6 a.usec ++ a.test.name) := by
    simp [(before_clean a).1, (usec_clean a).1, (name_clean a.test).1]
  rw [stream_dot, behindDot] at whole
  rcases message_name a.test with same | same
  · rw [same] at whole
    rw [← whole] at clean
    exact fun member => clean (List.mem_append_left _ member)
  · -- the terminator belongs to the bytes behind
    rw [same, ← List.append_assoc (padded 6 a.usec), ← List.cons_append,
      ← List.append_assoc] at whole
    have initial : front <+: beforeDot a ++ DOT :: (padded 6 a.usec ++ a.test.name) := by
      have cut := congrArg List.dropLast whole
      rw [List.dropLast_concat, List.dropLast_append_of_ne_nil more] at cut
      exact ⟨_, cut⟩
    exact fun member => clean (initial.subset member)

/-! ## Reading an announcement -/

/-- The seconds are read only when none of their digits has been received before. -/
theorem seconds_behind (a : Announcement) (whole : received ++ front = beforeDot a)
    (some_char : front ≠ [])
    (found : scan (front ++ DOT :: more).length (front ++ DOT :: more) =
      some (negative, digits, DOT :: more))
    (same : toLong negative (value digits) = a.sec) :
    ∃ z, a.filesizeStr ++ a.checksumStr = received ++ z ∧ front = z ++ decimal a.sec := by
  rcases List.append_eq_append_iff.mp whole with ⟨z, outer, inner⟩ | ⟨p, outer, inner⟩
  · exact ⟨z, outer, inner⟩
  · have own : ∀ b ∈ front, isDigit b = true := fun b member =>
      decimal_digits a.sec b (by rw [inner]; exact List.mem_append_right _ member)
    have known := (scan_number (DOT :: more) own some_char
      (fun b head => by cases head; decide)).1
    obtain ⟨rfl, rfl, -⟩ : false = negative ∧ front = digits ∧ True := by
      have both := known.symm.trans found
      simp only [Option.some.injEq, Prod.mk.injEq] at both
      exact ⟨both.1, both.2.1, trivial⟩
    have read : value front = a.sec := by
      have small := a.sec_fits
      simp only [toLong, Bool.false_eq_true, ↓reduceIte] at same
      omega
    have piece := value_piece p front [] (by
      rw [List.append_nil]
      exact inner)
    obtain ⟨rfl, -⟩ := piece.2 some_char read
    refine ⟨[], ?_, inner.symm⟩
    rw [List.append_nil] at outer ⊢
    exact outer.symm

/-- The first two texts are read right only when they are received apart. -/
theorem first_two_apart {quiet : Bool} (a : Announcement)
    (whole : a.filesizeStr ++ a.checksumStr = first ++ second ++ z) (some_first : first ≠ [])
    (some_second : second ≠ [])
    (size : (if quiet then 0 else atoi first) = a.filesize)
    (checksum : scanUnsigned second 0 = a.checksum) :
    z = [] ∧ (first = a.filesizeStr ∧ second = a.checksumStr ∨
      a.checksum = BitVec.ofNat 32 (2 ^ 31) ∧
        first = a.filesizeStr ++ [MINUS] ∧ second = decimal (2 ^ 31)) := by
  obtain ⟨x, longer, rest⟩ : ∃ x, first = a.filesizeStr ++ x ∧ a.checksumStr = x ++ second ++ z := by
    rw [List.append_assoc] at whole
    rcases List.append_eq_append_iff.mp whole with ⟨x, outer, inner⟩ | ⟨w, outer, inner⟩
    · exact ⟨x, outer, by rw [inner, List.append_assoc]⟩
    · by_cases cut : w = []
      · subst cut
        rw [List.append_nil] at outer
        exact ⟨[], by rw [outer, List.append_nil], inner.symm⟩
      · cases quiet with
        | false => exact absurd size (atoi_front a.filesize outer some_first cut)
        | true =>
          -- the size is zero and its text has one character
          have zero : a.filesize = 0 := size.symm
          have length := congrArg List.length outer
          have single : a.filesizeStr.length = 1 := by
            rw [Announcement.filesizeStr, zero]
            rfl
          have positive := List.length_pos_iff.mpr some_first
          have more := List.length_pos_iff.mpr cut
          rw [single, List.length_append] at length
          omega
  obtain ⟨rfl, rfl | ⟨rfl, edge⟩⟩ := unsigned_piece a.checksum rest some_second checksum
  · refine ⟨rfl, Or.inl ⟨by rw [longer, List.append_nil], ?_⟩⟩
    rw [rest, List.nil_append, List.append_nil]
  · refine ⟨rfl, Or.inr ⟨edge, longer, ?_⟩⟩
    have text : a.checksumStr = MINUS :: decimal (2 ^ 31) := by
      rw [Announcement.checksumStr, edge]
      rfl
    rw [text, List.append_nil] at rest
    exact (List.cons.inj rest).2.symm

/-- The name is read only from where the microseconds are over. -/
theorem name_behind (a : Announcement) (whole : more ++ fourth ++ unread = behindDot a)
    (some_fourth : fourth ≠ [])
    (read : (fourth.takeWhile fun b => decide (b ≠ NUL)) = a.test.name) :
    more = padded 6 a.usec ∧ a.test.name <+: fourth := by
  have initial : a.test.name <+: fourth := read ▸ List.takeWhile_prefix _
  refine ⟨?_, initial⟩
  rw [behindDot, List.append_assoc] at whole
  rcases List.append_eq_append_iff.mp whole with ⟨left, outer, inner⟩ | ⟨taken, outer, inner⟩
  · cases left with
    | nil => rw [outer, List.append_nil]
    | cons b left =>
      -- the name would begin with a digit
      obtain ⟨c, rest, rfl⟩ := List.exists_cons_of_ne_nil some_fourth
      have own : isDigit b = true := (padded_spec a.usec_fits (by omega)).2.1 b
        (outer ▸ List.mem_append_right _ List.mem_cons_self)
      obtain ⟨letter, others, name, different⟩ := name_letter a.test
      have same : c = b := (List.cons.inj inner).1
      obtain ⟨suffix, start⟩ := initial
      rw [name] at start
      have head : letter = c := (List.cons.inj start).1
      rw [head, same, own] at different
      cases different
  · by_cases none_taken : taken = []
    · rw [outer, none_taken, List.append_nil]
    · -- too little of the message would be left for the name
      have positive := List.length_pos_iff.mpr none_taken
      have shorter := initial.length_le
      have total := congrArg List.length inner
      rw [List.length_append, List.length_append] at total
      rcases message_name a.test with message | message
      · rw [message] at total
        omega
      · rw [message, List.length_append, List.length_singleton] at total
        have none_unread : unread = [] := List.length_eq_zero_iff.mp (by omega)
        have exactly : a.test.name = fourth := initial.eq_of_length (by omega)
        have last := congrArg List.getLast? inner
        rw [message, none_unread, List.append_nil, List.getLast?_concat,
          List.getLast?_append_of_ne_nil _ some_fourth] at last
        exact absurd (List.mem_of_getLast? last.symm) (exactly ▸ (name_clean a.test).1)

/-! ## The announcement as heard -/

/-- A start time that was read in full has its dot in the same result. -/
theorem time_split (read : scanTime third = (some sec, some usec)) :
    ∃ front more negative digits, third = front ++ DOT :: more ∧ front ≠ [] ∧
      scan third.length third = some (negative, digits, DOT :: more) ∧
      toLong negative (value digits) = sec := by
  unfold scanTime at read
  cases found : scan third.length third with
  | none => simp [found] at read
  | some parts =>
    obtain ⟨negative, digits, rest⟩ := parts
    simp only [found, Prod.mk.injEq, Option.some.injEq] at read
    obtain ⟨seconds, micro⟩ := read
    obtain ⟨spaces, sign, text, -, some_digit, -, -⟩ := scan_some found
    cases rest with
    | nil => simp at micro
    | cons b more =>
      by_cases dot : b = DOT
      · subst dot
        exact ⟨spaces ++ sign ++ digits, more, negative, digits, text, by simp [some_digit],
          rfl, seconds⟩
      · simp [dot] at micro

theorem heard_in_frames (quiet : Bool) (messageBuffer : List Byte) (a : Announcement)
    (arrival : Segmentation a.stream) :
    HeardRight quiet messageBuffer a arrival →
      (quiet = true → a.filesize = 0) ∧ InFrames a arrival.chunks := by
  intro right
  rcases arrival with ⟨_ | ⟨first, _ | ⟨second, _ | ⟨third, _ | ⟨fourth, rest⟩⟩⟩⟩, unread, whole,
    some_byte, asked, ended⟩
  iterate 4 cases right
  have only : rest = [] := by
    simp only [List.length_cons] at ended
    exact List.length_eq_zero_iff.mp (by omega)
  subst only
  simp only [List.mem_cons, List.not_mem_nil, or_false, forall_eq_or_imp, forall_eq] at some_byte
  obtain ⟨some_first, some_second, -, some_fourth⟩ := some_byte
  have stream : first ++ second ++ third ++ (fourth ++ unread) = a.stream := by
    simpa using whole
  have clean := front_clean a stream (by simp [some_fourth])
  simp only [List.mem_append, not_or] at clean
  obtain ⟨⟨clean_first, clean_second⟩, clean_third⟩ := clean
  unfold HeardRight takeAnnouncement at right
  simp only [Option.some.injEq, Announcement.heard, Heard.mk.injEq, cstr_clean _ clean_first,
    cstr_clean _ clean_second, cstr_clean _ clean_third, cstr_received _ fourth] at right
  obtain ⟨size, checksum, sec, usec, name⟩ := right
  obtain ⟨front, more, negative, digits, third_text, some_char, found, seconds⟩ :=
    time_split (Prod.ext sec usec)
  have around : (first ++ second ++ front) ++ DOT :: (more ++ fourth ++ unread) =
      beforeDot a ++ DOT :: behindDot a := by
    rw [← stream_dot, ← stream, third_text]
    simp only [List.append_assoc, List.cons_append]
  obtain ⟨before, behind⟩ := split_once (before_clean a).2 (behind_no_dot a) around
  rw [third_text] at found
  obtain ⟨z, texts, seconds_text⟩ := seconds_behind a before some_char found seconds
  obtain ⟨rfl, apart⟩ := first_two_apart a texts some_first some_second size checksum
  obtain ⟨micro, started⟩ := name_behind a behind some_fourth name
  refine ⟨fun muted => ?_, first, second, fourth, ?_, apart, started⟩
  · rw [if_pos muted] at size
    exact size.symm
  · show [first, second, third, fourth] = _
    rw [third_text, seconds_text, micro]
    rfl

/-- The text of the edge case, which stands for the same number with its sign
and without. -/
theorem edge_text {a : Announcement} (edge : a.checksum = BitVec.ofNat 32 (2 ^ 31)) :
    a.checksumStr = MINUS :: decimal (2 ^ 31) ∧
      scanUnsigned (decimal (2 ^ 31)) 0 = a.checksum := by
  refine ⟨by rw [Announcement.checksumStr, edge]; rfl, ?_⟩
  unfold scanUnsigned
  rw [(scan_all (decimal_digits _) (decimal_ne_nil _)).1, edge]
  simp only [value_decimal]
  decide

/-- The first two results read right in both cases, and are the same bytes. -/
theorem first_two_read (a : Announcement)
    (texts : first = a.filesizeStr ∧ second = a.checksumStr ∨
      a.checksum = BitVec.ofNat 32 (2 ^ 31) ∧
        first = a.filesizeStr ++ [MINUS] ∧ second = decimal (2 ^ 31)) :
    atoi first = a.filesize ∧ scanUnsigned second 0 = a.checksum ∧
      first ++ second = a.filesizeStr ++ a.checksumStr ∧ NUL ∉ first ∧ NUL ∉ second := by
  have size := (print_clean a.filesize.toInt).1
  have checksum := (print_clean a.checksum.toInt).1
  rcases texts with ⟨rfl, rfl⟩ | ⟨edge, rfl, rfl⟩
  · refine ⟨?_, unsigned_print _ _, rfl, size, checksum⟩
    have read := atoi_print a.filesize [] nofun
    rwa [List.append_nil] at read
  · obtain ⟨text, read⟩ := edge_text edge
    refine ⟨atoi_print _ _ ?_, read, ?_, ?_, (digits_clean (decimal_digits _)).1⟩
    · intro b head
      cases head
      decide
    · rw [text, List.append_assoc]
      rfl
    · simp [Announcement.filesizeStr, size]

theorem in_frames_heard (quiet : Bool) (messageBuffer : List Byte) (a : Announcement)
    (size : quiet = true → a.filesize = 0) (frames : InFrames a chunks)
    (whole : chunks.flatten ++ unread = a.stream) :
    takeAnnouncement quiet messageBuffer chunks = some a.heard := by
  obtain ⟨first, second, fourth, rfl, texts, started⟩ := frames
  obtain ⟨first_size, second_checksum, same, clean_first, clean_second⟩ := first_two_read a texts
  have clean_third := start_time_clean a
  have message : fourth ++ unread = a.test.message := by
    have stream : first ++ second ++ a.startTimeStr ++ (fourth ++ unread) = a.stream := by
      simpa using whole
    rw [same, Announcement.stream] at stream
    exact List.append_cancel_left stream
  have name : (fourth.takeWhile fun b => decide (b ≠ NUL)) = a.test.name := by
    have clean_name := (name_clean a.test).1
    obtain ⟨rest, rfl⟩ := started
    have all : (a.test.name.takeWhile fun b => decide (b ≠ NUL)) = a.test.name := by
      apply take_while_all
      intro b member
      simp only [decide_eq_true_eq]
      exact fun nul => clean_name (nul ▸ member)
    rcases message_name a.test with alone | ended
    · rw [alone, List.append_assoc] at message
      have nothing := List.append_right_eq_self.mp message
      rw [(List.append_eq_nil_iff.mp nothing).1, List.append_nil, all]
    · rw [ended, List.append_assoc, List.append_cancel_left_eq] at message
      cases rest with
      | nil => rw [List.append_nil, all]
      | cons b rest =>
        have nul : b = NUL := (List.cons.inj message).1
        rw [nul, take_while_stops (by simp), all]
  have time := scan_time_print a.sec a.usec a.sec_fits a.usec_fits
  unfold takeAnnouncement
  simp only [cstr_clean _ clean_first, cstr_clean _ clean_second, cstr_clean _ clean_third,
    cstr_received _ fourth, name, first_size, second_checksum]
  rw [show scanTime a.startTimeStr = _ from time]
  unfold Announcement.heard
  cases quiet with
  | false => rfl
  | true => rw [size rfl]; rfl

/-- Three texts that arrive whole are read as what they were printed from. -/
theorem texts_taken (messageBuffer fourth : List Byte) (a : Announcement) :
    takeAnnouncement false messageBuffer [a.filesizeStr, a.checksumStr, a.startTimeStr, fourth] =
      some ⟨a.filesize, a.checksum, some a.sec, some a.usec, cstr (recvInto cleared fourth) 0⟩ := by
  have size := atoi_print a.filesize [] nofun
  have checksum := unsigned_print a.checksum 0
  have time := scan_time_print a.sec a.usec a.sec_fits a.usec_fits
  rw [List.append_nil] at size
  unfold takeAnnouncement
  simp only [cstr_clean _ (start_time_clean a)]
  unfold Announcement.filesizeStr Announcement.checksumStr Announcement.startTimeStr
  simp only [cstr_clean _ (print_clean _).1, size, checksum, time, Bool.false_eq_true, ↓reduceIte]

/-- Each text that arrives whole in its `recv` reads back as the value it was
printed from, the checksum through a sign and the microseconds through their
zeros. The texts fit what the calls ask for. -/
theorem texts_read_back (messageBuffer fourth : List Byte) (a : Announcement) :
    takeAnnouncement false messageBuffer [a.filesizeStr, a.checksumStr, a.startTimeStr, fourth] =
        some ⟨a.filesize, a.checksum, some a.sec, some a.usec, cstr (recvInto cleared fourth) 0⟩ ∧
      a.filesizeStr.length ≤ asks 0 ∧ a.checksumStr.length ≤ asks 1 ∧
      a.startTimeStr.length ≤ asks 2 := by
  refine ⟨texts_taken messageBuffer fourth a, ?_, ?_, ?_⟩
  · exact (print_length a.filesize).trans (by decide)
  · exact (print_length a.checksum).trans (by decide)
  · have sec := decimal_length a.sec_fits (by omega)
    have usec := (padded_spec a.usec_fits (by omega)).1
    rw [Announcement.startTimeStr, List.length_append, List.length_cons, usec, asks]
    · omega
    · exact nofun

/-- However the announcement arrives, the server ends up with what was
announced exactly when it arrives message by message, and is not quiet unless
the file is empty. -/
theorem announcement_heard_iff (quiet : Bool) (messageBuffer : List Byte) (a : Announcement)
    (arrival : Segmentation a.stream) :
    HeardRight quiet messageBuffer a arrival ↔
      (quiet = true → a.filesize = 0) ∧ InFrames a arrival.chunks :=
  ⟨heard_in_frames quiet messageBuffer a arrival,
    fun condition => in_frames_heard quiet messageBuffer a condition.1 condition.2 arrival.whole⟩

/-- A transfer of the 100 MiB test file over IPv4. -/
def testTransfer : Announcement :=
  ⟨104857600, 0, 1690000000, 250000, .ipv4Tcp, by decide, by decide⟩

/-- The first two messages arrive together and the third in two pieces. -/
def mergedArrival : Segmentation testTransfer.stream where
  chunks := [testTransfer.filesizeStr ++ testTransfer.checksumStr,
    testTransfer.startTimeStr.take 6, testTransfer.startTimeStr.drop 6, testTransfer.test.message]
  unread := []
  whole := by decide
  some_byte := by decide
  asked := by
    intro i chunk given
    match i with
    | 0 => cases given; decide
    | 1 => cases given; decide
    | 2 => cases given; decide
    | 3 => cases given; decide
    | i + 4 => simp at given
  ended := by decide

/-- The server then takes the size for ten times what it is. -/
theorem merged_messages_misread :
    ¬ ∀ (quiet : Bool) (messageBuffer : List Byte) (a : Announcement)
      (arrival : Segmentation a.stream), HeardRight quiet messageBuffer a arrival := by
  intro heard
  have size : (takeAnnouncement false cleared mergedArrival.chunks).map Heard.fileSize =
      some 1048576000 := by decide
  rw [heard false cleared testTransfer mergedArrival] at size
  exact absurd size (by decide)

end OsCourse.ControlMessages
