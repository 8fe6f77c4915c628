import F3.DriverStat
import F3.Download

/-! The published size as text: snprintf with %lu into 23 zeroed bytes on one side, strtol
on 23 zeroed bytes on the other. The attribute holds the digits and no terminator. -/
namespace F3.Driver.SizeText
open Lib (Bytes)
open Lib.Lines (cut cutLine)
open Lib.Posix
open Fetch (published)
open Stats (sizeRead getSizeReads)

-- A zeroed buffer of `room` bytes with some of its first bytes set.
def zeroed (room : Nat) (text : Bytes) : Bytes := text ++ List.replicate (room - text.length) 0

-- What snprintf leaves in a zeroed buffer: a text that has no room for its terminator is cut.
def snprintf (room : Nat) (text : Bytes) : Bytes := zeroed room (text.take (room - 1))

-- The text in a buffer, if it is terminated there.
def cText (buffer : Bytes) : Option Bytes := (cut 0 buffer).map Prod.fst

def sizeStr (size : Nat) : Bytes := snprintf 23 (digits size)
def sizeValue (size : Nat) : Bytes := (sizeStr size).take (digits size).length

theorem digitsLength {size k : Nat} (some : 0 < k) : (digits size).length ≤ k ↔ size < 10 ^ k := by
  rw [digits,List.length_map]
  exact Nat.length_toDigits_le_iff (by decide) some

theorem digitsFree {size : Nat} {b : UInt8} (other : b < 48) : b ∉ digits size :=
  fun mem => absurd (Download.digitsPlain mem).1 (UInt8.not_le.mpr other)

theorem cTextZeroed {room : Nat} {text : Bytes} (free : 0 ∉ text) (fits : text.length < room) :
    cText (zeroed room text) = some text := by
  have terminated : zeroed room text = text ++ 0 :: List.replicate (room - text.length - 1) 0 := by
    rw [zeroed,← List.replicate_succ,show room - text.length - 1 + 1 = room - text.length by omega]
  rw [terminated,cText,cutLine _ free]
  rfl

theorem foldDigits {text : List Char} (digits : ∀ c ∈ text, c.isDigit = true) (n : Nat) :
    (text.map (fun c => c.toNat.toUInt8)).foldl (fun n d => 10 * n + (d.toNat - 48)) n =
      Nat.ofDigitChars 10 text n := by
  induction text generalizing n with
  | nil => rfl
  | cons c rest ih =>
    have value := (Download.digitValue (digits c List.mem_cons_self)).1
    simp only [List.map_cons,List.foldl_cons,Nat.ofDigitChars_cons,value]
    exact ih (fun d mem => digits d (List.mem_cons_of_mem c mem)) _

theorem decimalDigits (size : Nat) : decimal (digits size) = size := by
  have each : ∀ c ∈ Nat.toDigits 10 size, c.isDigit = true :=
    fun c mem => Nat.isDigit_of_mem_toDigits (by decide) (by decide) mem
  have all : (digits size).takeWhile isDigit = digits size := by
    refine List.takeWhile_eq_self_iff.mpr fun b mem => ?_
    simpa [isDigit] using Download.digitsPlain mem
  rw [decimal,all,digits,foldDigits each]
  exact Nat.ofDigitChars_ten_toDigits

theorem strtolDigits {size : Nat} (stored : size < 2 ^ 63) : strtol (digits size) = size := by
  have start : (digits size).dropWhile isSpace = digits size := by
    refine List.dropWhile_eq_self_iff.mpr fun some blank => ?_
    have digit := (Download.digitsPlain (List.getElem_mem some)).1
    generalize (digits size)[0] = b at blank digit
    simp only [isSpace,Bool.decide_or,Bool.or_eq_true,decide_eq_true_eq] at blank
    rcases blank with rfl | ⟨_,high⟩
    · exact absurd digit (by decide)
    · exact absurd (UInt8.le_trans digit high) (by decide)
  unfold strtol
  rw [start]
  split
  · rename_i rest same
    exact absurd (show 45 ∈ digits size by simp [same]) (digitsFree (by decide))
  · rename_i rest same
    exact absurd (show 43 ∈ digits size by simp [same]) (digitsFree (by decide))
  · rw [decimalDigits]
    omega

theorem valueWhole {size : Nat} (stored : size < 2 ^ 63) :
    (digits size).length < 23 ∧ sizeStr size = zeroed 23 (digits size) ∧ sizeValue size = digits size := by
  have short : (digits size).length ≤ 19 :=
    (digitsLength (by decide)).mpr (Nat.lt_trans stored (by decide))
  have whole : sizeStr size = zeroed 23 (digits size) := by
    rw [sizeStr,snprintf,List.take_of_length_le (Nat.le_trans short (by decide))]
  refine ⟨by omega,whole,?_⟩
  rw [sizeValue,whole,zeroed,List.take_left]

theorem publishedValue {v : Volume Call} {ino : Ino} {size : Nat} (stored : size < 2 ^ 63)
    (value : (v.nodes ino).xattr f3Size = some (sizeValue size)) : published v ino = size := by
  obtain ⟨short,_,whole⟩ := valueWhole stored
  rw [published,value,whole]
  simp only [if_pos (Nat.le_of_lt short)]
  have text : (digits size).takeWhile (· ≠ 0) = digits size :=
    List.takeWhile_eq_self_iff.mpr fun b mem => by
      simpa using fun zero : b = 0 => digitsFree (by decide) (zero ▸ mem)
  rw [text,strtolDigits stored,sizeT]
  omega

theorem sizeRoundTrip {size : Nat} (stored : size < 2 ^ 63) :
    ((sizeStr size).length = 23 ∧ cText (sizeStr size) = some (digits size) ∧
      sizeValue size = digits size ∧ cText (zeroed 23 (sizeValue size)) = some (digits size)) ∧
    (∀ (fd : Slot) (e : Env Call) (m : Mount Call) (f : File), m.file fd = some f → f.entry.kind = .reg →
      e.fault .sizeOpen = none → e.fault .sizeSet = none →
      ((f3UpdateSizeXattr fd size e m).2.vol.nodes f.entry.ino).xattr f3Size = some (sizeValue size)) ∧
    (∀ (fd : Slot) (e : Env Call) (m : Mount Call) (f : File), m.file fd = some f → f.entry.kind = .reg →
      e.fault (.getOpen f3Size) = none → e.fault (.getAttr f3Size) = none →
      (m.vol.nodes f.entry.ino).xattr f3Size = some (sizeValue size) → (f3GetSizeXattr fd e m).1 = size) ∧
    ∀ (fd : Slot) (e : Env Call) (m : Mount Call),
      (∀ f ∈ m.file fd, (m.vol.nodes f.entry.ino).xattr f3Size = none) → (f3GetSizeXattr fd e m).1 = 0 := by
  obtain ⟨short,buffer,whole⟩ := valueWhole stored
  have text : cText (zeroed 23 (digits size)) = some (digits size) :=
    cTextZeroed (digitsFree (by decide)) short
  refine ⟨⟨?_,buffer ▸ text,whole,whole.symm ▸ text⟩,?_,?_,?_⟩
  · rw [buffer,zeroed,List.length_append,List.length_replicate]
    omega
  · intro fd e m f known reg opens sets
    rw [whole]
    exact Handles.updateSizeSets known reg opens sets
  · intro fd e m f known reg opens gets value
    rw [getSizeReads,sizeRead,known]
    simp only [opens,gets,reg,or_true,and_self,if_true]
    exact publishedValue stored value
  · intro fd e m missing
    rw [getSizeReads,sizeRead]
    split
    · rename_i f known
      simp [published,missing f known]
    · rfl

def oneFile : Mount Call := ⟨emptyVolume 1 nameA,[(0,⟨⟨7,.reg⟩,none,.path⟩)],1,by decide,[]⟩

theorem largestRoundTrip : (2 ^ 63 - 1 < 2 ^ 63) ∧
    (f3GetSizeXattr (.fd 0) (calm 9) (f3UpdateSizeXattr (.fd 0) (2 ^ 63 - 1) (calm 9) oneFile).2).1 = 2 ^ 63 - 1 := by
  have stored : 2 ^ 63 - 1 < 2 ^ 63 := by decide
  obtain ⟨_,sets,gets,_⟩ := sizeRoundTrip stored
  refine ⟨stored,gets (.fd 0) (calm 9) _ ⟨⟨7,.reg⟩,none,.path⟩ ?_ rfl rfl rfl ?_⟩
  · rfl
  · exact sets (.fd 0) (calm 9) oneFile ⟨⟨7,.reg⟩,none,.path⟩ rfl rfl rfl rfl

end F3.Driver.SizeText
