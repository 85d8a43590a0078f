import OsCourse.CString

/-! `codecA.c`, `codecB.c` and the programs `encode.c` and `decode.c` on top of
them. A codec rewrites a string in its own memory up to the terminator it
started with, so a character that becomes the terminator cuts the string off. -/
namespace OsCourse.Codec
open Stdio CString

/-- `for (int i = 0; str[i]; i++) str[i] = f(str[i]);` over the memory from
`str` on. The test reads a character before it is rewritten. -/
def rewrite (f : Byte → Byte) : List Byte → List Byte
  | [] => []
  | c :: rest => if c = NUL then c :: rest else f c :: rewrite f rest

/-- `(c + k) % 128` of a signed `char`, with C's remainder. -/
def shift (k : Int) (c : Byte) : Byte := toChar ((c.toInt + k).tmod 128)

/-- `tolower` in the C locale. -/
def tolower (c : Int) : Int := if 65 ≤ c ∧ c ≤ 90 then c + 32 else c

def islower (c : Int) : Bool := 97 ≤ c ∧ c ≤ 122

def isupper (c : Int) : Bool := 65 ≤ c ∧ c ≤ 90

/-- The body of the loop in `codecA.c`. -/
def swapCase (c : Byte) : Byte :=
  if islower c.toInt then toChar (toupper c.toInt)
  else if isupper c.toInt then toChar (tolower c.toInt)
  else c

/-- The two functions a codec library exports. -/
structure Library where
  encode : List Byte → List Byte
  decode : List Byte → List Byte

def codecA : Library := ⟨rewrite swapCase, rewrite swapCase⟩

def codecB : Library := ⟨rewrite (shift 3), rewrite (shift 125)⟩

/-- The name of a library as an argument. -/
def argument (name : String) : List Byte := name.toList.map fun c => BitVec.ofNat 8 c.toNat

/-- What `main` of `encode.c` or `decode.c` prints. -/
inductive Printed where
  /-- `"Usage: %s <codec> <message>\n"` -/
  | usage (program : List Byte)
  /-- `"Invalid codec: %s\n"` -/
  | invalidCodec (name : List Byte)
  /-- the text of `dlerror()` -/
  | dlerror
  /-- `"%s\n"` -/
  | line (text : List Byte)
  deriving DecidableEq

/-- Behind the check of the library's name: `dlopen` and `dlsym`, which may
fail, and the call on the message in its own memory. -/
def apply (symbol : List Byte → List Byte) (message behind : List Byte) (loads : Bool) :
    Ending × Printed :=
  if loads then (.returns 0, .line (cstr (symbol (message ++ NUL :: behind)) 0))
  else (.exits 1, .dlerror)

/-- `main`, with the function it looks up and the memory behind the message. -/
def main (symbol : Library → List Byte → List Byte) (argv : List (List Byte))
    (behind : List Byte) (loads : Bool) : Ending × Printed :=
  match argv with
  | [_, codec, message] =>
    if codec = argument "codecA" then apply (symbol codecA) message behind loads
    else if codec = argument "codecB" then apply (symbol codecB) message behind loads
    else (.exits 1, .invalidCodec codec)
  | program :: _ => (.exits 1, .usage program)
  | [] => (.exits 1, .usage [])

/-! ## What a codec makes of a text -/

/-- The text in front of the first terminator. -/
def cut (text : List Byte) : List Byte := text.takeWhile fun c => decide (c ≠ NUL)

theorem cut_cons (c : Byte) (rest : List Byte) :
    cut (c :: rest) = if c = NUL then [] else c :: cut rest := by
  unfold cut
  rw [List.takeWhile_cons]
  by_cases ends : c = NUL <;> simp [ends]

theorem nul_notMem_cut (text : List Byte) : NUL ∉ cut text := by
  intro member
  have kept := List.all_eq_true.mp List.all_takeWhile NUL member
  exact absurd kept (by decide)

theorem cut_eq_self (clean : NUL ∉ text) : cut text = text := by
  apply take_while_all
  intro c member
  simp only [ne_eq, decide_eq_true_eq]
  rintro rfl
  exact clean member

/-- The string behind a codec's run: each character of the string before is
replaced, and the first that became the terminator ends it. -/
theorem cut_rewrite (f : Byte → Byte) (mem : List Byte) :
    cut (rewrite f mem) = cut ((cut mem).map f) := by
  induction mem with
  | nil => rfl
  | cons c rest ih =>
    rw [rewrite, cut_cons c rest]
    by_cases ends : c = NUL
    · rw [if_pos ends, if_pos ends, cut_cons, if_pos ends]
      rfl
    · rw [if_neg ends, if_neg ends, List.map_cons, cut_cons, cut_cons, ih]

theorem cstr_rewrite (f : Byte → Byte) (holds : Holds mem 0 text) :
    cstr (rewrite f mem) 0 = cut (text.map f) := by
  have before : cut mem = text := cstr_of_holds holds
  exact (cut_rewrite f mem).trans (congrArg (fun text => cut (text.map f)) before)

/-- The terminator of the string before is still there, so the memory holds a
string again. -/
theorem rewrite_holds (f : Byte → Byte) (holds : Holds mem 0 text) :
    Holds (rewrite f mem) 0 (cut (text.map f)) := by
  obtain ⟨clean, junk, there⟩ := holds
  refine ⟨nul_notMem_cut _, ?_⟩
  rw [List.drop_zero] at there ⊢
  subst there
  induction text with
  | nil => exact ⟨junk, by rw [List.nil_append, rewrite, if_pos rfl]; rfl⟩
  | cons c rest ih =>
    have letter : c ≠ NUL := fun same => clean (same ▸ List.mem_cons_self)
    obtain ⟨more, later⟩ := ih fun member => clean (List.mem_cons_of_mem _ member)
    rw [List.cons_append, rewrite, if_neg letter, List.map_cons, cut_cons]
    by_cases ends : f c = NUL
    · exact ⟨rewrite f (rest ++ NUL :: junk), by rw [if_pos ends, ends]; rfl⟩
    · exact ⟨more, by rw [if_neg ends, later]; rfl⟩

/-- A text comes back through two codecs exactly when no character of it
becomes the terminator and each of them comes back. -/
theorem cut_round_trip_iff (f g : Byte → Byte) (clean : NUL ∉ text) :
    cut ((cut (text.map f)).map g) = text ↔ ∀ c ∈ text, f c ≠ NUL ∧ g (f c) = c := by
  induction text with
  | nil => exact iff_of_true rfl fun c member => by cases member
  | cons c rest ih =>
    have letter : c ≠ NUL := fun same => clean (same ▸ List.mem_cons_self)
    have later := ih fun member => clean (List.mem_cons_of_mem _ member)
    rw [List.forall_mem_cons, List.map_cons, cut_cons]
    by_cases ends : f c = NUL
    · rw [if_pos ends]
      exact iff_of_false (fun same => by cases same) fun kept => kept.1.1 ends
    · rw [if_neg ends, List.map_cons, cut_cons]
      by_cases back : g (f c) = c
      · rw [back, if_neg letter, List.cons_inj_right, later]
        exact (and_iff_right ⟨ends, rfl⟩).symm
      · refine iff_of_false ?_ fun kept => back kept.1.2
        split
        · intro same
          cases same
        · intro same
          exact back (List.cons.inj same).1

theorem cut_map_length {text : List Byte} (f : Byte → Byte)
    (survives : ∀ c ∈ text, f c ≠ NUL) : (cut (text.map f)).length = text.length := by
  have clean : NUL ∉ text.map f := by
    intro member
    obtain ⟨c, inside, ends⟩ := List.mem_map.mp member
    exact survives c inside ends
  rw [cut_eq_self clean, List.length_map]

/-! ## The characters codecB gives back -/

theorem tmod_cases (x : Int) : x.tmod 128 = if 0 ≤ x then x % 128 else -(-x % 128) := by
  split
  · rename_i nonneg
    exact Int.tmod_eq_emod_of_nonneg nonneg
  · rename_i negative
    have flipped : x.tmod 128 = -(-x).tmod 128 := by rw [Int.neg_tmod, Int.neg_neg]
    rw [flipped, Int.tmod_eq_emod_of_nonneg (by omega)]

/-- The remainder of a signed character fits into one. -/
theorem shift_toInt (k : Int) (c : Byte) :
    (shift k c).toInt =
      if 0 ≤ c.toInt + k then (c.toInt + k) % 128 else -(-(c.toInt + k) % 128) := by
  rw [shift, toChar, tmod_cases]
  apply BitVec.toInt_ofInt_eq_self (by decide) <;> split <;> omega

theorem eq_nul_iff (c : Byte) : c = NUL ↔ c.toInt = 0 :=
  BitVec.toInt_inj.symm

/-- Shifting up to 128 in two steps gives back the characters above the
terminator, except the one the first step makes the terminator. -/
theorem shifted_back_iff (k : Int) (up : 0 < k ∧ k < 128) (letter : c ≠ NUL) :
    (shift k c ≠ NUL ∧ shift (128 - k) (shift k c) = c) ↔ 0 < c.toInt ∧ c.toInt ≠ 128 - k := by
  have low : -128 ≤ c.toInt := BitVec.le_toInt c
  have high : c.toInt < 128 := BitVec.toInt_lt
  have first := shift_toInt k c
  have second := shift_toInt (128 - k) (shift k c)
  rw [ne_eq, eq_nul_iff] at letter ⊢
  rw [← BitVec.toInt_inj]
  constructor
  · rintro ⟨survives, back⟩
    rw [back] at second
    split at first <;> split at second <;> omega
  · rintro ⟨positive, other⟩
    rw [if_pos (by omega)] at first
    rw [if_pos (by omega)] at second
    omega

/-! ## Round trips -/

/-- A message: a text that ends at its terminator. -/
structure Message where
  text : List Byte
  clean : NUL ∉ text

/-- Whatever memory holds the message, and whatever memory then holds the
string `first` has left, `second` gives the message back. -/
def GivesBack (first second : List Byte → List Byte) (message : Message) : Prop :=
  ∀ mem rewritten, Holds mem 0 message.text → Holds rewritten 0 (cstr (first mem) 0) →
    cstr (second rewritten) 0 = message.text

/-- CodecB loses nothing of a message and keeps its length. -/
structure RoundTrips (message : Message) : Prop where
  decoded : GivesBack codecB.encode codecB.decode message
  length : ∀ mem, Holds mem 0 message.text →
    (cstr (codecB.encode mem) 0).length = message.text.length
  encoded : GivesBack codecB.decode codecB.encode message

/-- Every character is ASCII, and neither step makes one the terminator. -/
def Plain (message : Message) : Prop :=
  ∀ c ∈ message.text, 0 < c.toInt ∧ c.toInt ≠ 125 ∧ c.toInt ≠ 3

theorem gives_back_iff (f g : Byte → Byte) (message : Message) :
    GivesBack (rewrite f) (rewrite g) message ↔
      ∀ c ∈ message.text, f c ≠ NUL ∧ g (f c) = c := by
  rw [← cut_round_trip_iff f g message.clean]
  constructor
  · intro back
    have holds : Holds (message.text ++ [NUL]) 0 message.text := ⟨message.clean, [], rfl⟩
    have again := rewrite_holds f holds
    rw [← cstr_rewrite g again]
    apply back _ _ holds
    rw [cstr_rewrite f holds]
    exact again
  · intro same mem rewritten holds again
    rw [cstr_rewrite f holds] at again
    rw [cstr_rewrite g again]
    exact same

theorem codecB_decoded_iff (message : Message) :
    GivesBack codecB.encode codecB.decode message ↔
      ∀ c ∈ message.text, 0 < c.toInt ∧ c.toInt ≠ 125 := by
  refine (gives_back_iff (shift 3) (shift 125) message).trans (forall₂_congr fun c member => ?_)
  exact shifted_back_iff 3 (by decide) fun ends => message.clean (ends ▸ member)

theorem codecB_encoded_iff (message : Message) :
    GivesBack codecB.decode codecB.encode message ↔
      ∀ c ∈ message.text, 0 < c.toInt ∧ c.toInt ≠ 3 := by
  refine (gives_back_iff (shift 125) (shift 3) message).trans (forall₂_congr fun c member => ?_)
  exact shifted_back_iff 125 (by decide) fun ends => message.clean (ends ▸ member)

/-- CodecB round trips, in both orders and in length, exactly the messages of
ASCII characters other than 3 and 125. -/
theorem round_trips_iff (message : Message) : RoundTrips message ↔ Plain message := by
  constructor
  · intro trips c member
    have decoded := (codecB_decoded_iff message).mp trips.decoded c member
    have encoded := (codecB_encoded_iff message).mp trips.encoded c member
    exact ⟨decoded.1, decoded.2, encoded.2⟩
  · intro plain
    refine ⟨?_, ?_, ?_⟩
    · exact (codecB_decoded_iff message).mpr fun c member => ⟨(plain c member).1, (plain c member).2.1⟩
    · intro mem holds
      rw [show codecB.encode mem = rewrite (shift 3) mem from rfl, cstr_rewrite _ holds]
      refine cut_map_length (shift 3) fun c member => ?_
      have letter : c ≠ NUL := fun ends => message.clean (ends ▸ member)
      obtain ⟨positive, other, -⟩ := plain c member
      exact ((shifted_back_iff 3 (by decide) letter).mpr ⟨positive, other⟩).1
    · exact (codecB_encoded_iff message).mpr fun c member => ⟨(plain c member).1, (plain c member).2.2⟩

/-- A closing brace is encoded as the terminator, and the message is lost. -/
theorem brace_is_lost : ¬ ∀ message, RoundTrips message := by
  intro trips
  have back := (codecB_decoded_iff ⟨[125#8], by decide⟩).mp (trips _).decoded
  exact absurd (back 125#8 (by decide)) (by decide)

/-! ## The programs -/

/-- What `encode` prints, given to `decode` as its message, is printed as the
message again exactly when the codec gives the message back. -/
theorem programs_give_back_iff (f g : Byte → Byte) (message : Message) (behind other : List Byte) :
    (∃ printed, apply (rewrite f) message.text behind true = (.returns 0, .line printed) ∧
        apply (rewrite g) printed other true = (.returns 0, .line message.text)) ↔
      GivesBack (rewrite f) (rewrite g) message := by
  have holds : Holds (message.text ++ NUL :: behind) 0 message.text := ⟨message.clean, behind, rfl⟩
  have line (h : Byte → Byte) (text more : List Byte) :
      apply (rewrite h) text more true =
        (.returns 0, .line (cstr (rewrite h (text ++ NUL :: more)) 0)) := rfl
  rw [gives_back_iff, ← cut_round_trip_iff f g message.clean]
  have again : Holds (cut (message.text.map f) ++ NUL :: other) 0 (cut (message.text.map f)) :=
    ⟨nul_notMem_cut _, other, rfl⟩
  constructor
  · rintro ⟨printed, first, second⟩
    rw [line, cstr_rewrite f holds] at first
    cases first
    rw [line, cstr_rewrite g again] at second
    simpa using second
  · intro same
    refine ⟨cut (message.text.map f), ?_, ?_⟩
    · rw [line, cstr_rewrite f holds]
    · rw [line, cstr_rewrite g again, same]

theorem swapCase_toInt (c : Byte) :
    (swapCase c).toInt =
      if 97 ≤ c.toInt ∧ c.toInt ≤ 122 then c.toInt - 32
      else if 65 ≤ c.toInt ∧ c.toInt ≤ 90 then c.toInt + 32 else c.toInt := by
  have fits (x : Int) (low : 0 ≤ x) (high : x < 128) : (toChar x).toInt = x :=
    BitVec.toInt_ofInt_eq_self (by decide) (by omega) (by omega)
  unfold swapCase islower isupper
  simp only [decide_eq_true_eq]
  split
  · rename_i lower
    rw [toupper, if_pos lower, fits _ (by omega) (by omega)]
  · split
    · rename_i upper
      rw [tolower, if_pos upper, fits _ (by omega) (by omega)]
    · rfl

/-- Swapping case loses nothing, so codecA gives every message back. -/
theorem swapped_back (letter : c ≠ NUL) : swapCase c ≠ NUL ∧ swapCase (swapCase c) = c := by
  have once := swapCase_toInt c
  have twice := swapCase_toInt (swapCase c)
  rw [ne_eq, eq_nul_iff] at letter ⊢
  rw [← BitVec.toInt_inj]
  split at once
  · split at twice <;> omega
  · split at once <;> split at twice <;> omega

theorem codecA_programs (message : Message) (program behind other : List Byte) :
    ∃ printed, main Library.encode [program, argument "codecA", message.text] behind true =
        (.returns 0, .line printed) ∧
      main Library.decode [program, argument "codecA", printed] other true =
        (.returns 0, .line message.text) := by
  refine (programs_give_back_iff swapCase swapCase message behind other).mpr ?_
  refine (gives_back_iff swapCase swapCase message).mpr fun c member => ?_
  exact swapped_back fun ends => message.clean (ends ▸ member)

theorem codecB_programs_iff (message : Message) (program behind other : List Byte) :
    (∃ printed, main Library.encode [program, argument "codecB", message.text] behind true =
        (.returns 0, .line printed) ∧
      main Library.decode [program, argument "codecB", printed] other true =
        (.returns 0, .line message.text)) ↔
      ∀ c ∈ message.text, 0 < c.toInt ∧ c.toInt ≠ 125 :=
  (programs_give_back_iff (shift 3) (shift 125) message behind other).trans
    (codecB_decoded_iff message)

end OsCourse.Codec
