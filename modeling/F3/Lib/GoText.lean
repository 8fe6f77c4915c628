import F3.Lib.Bytes
import F3.Lib.Lines
import Mathlib.Data.List.DropRight

/-! Texts as Go's strings and fmt packages treat them: white space at the ends, and
formatting with no operands, where every verb is reported in the output instead. -/
namespace F3.Lib.GoText
open Lib (Bytes)
open Lib.Lines (cut)

-- unicode.IsSpace, each rune by its encoding.
def blanks : List Bytes :=
  [[9],[10],[11],[12],[13],[32],[0xC2,0x85],[0xC2,0xA0],[0xE1,0x9A,0x80],
   [0xE2,0x80,0x80],[0xE2,0x80,0x81],[0xE2,0x80,0x82],[0xE2,0x80,0x83],[0xE2,0x80,0x84],
   [0xE2,0x80,0x85],[0xE2,0x80,0x86],[0xE2,0x80,0x87],[0xE2,0x80,0x88],[0xE2,0x80,0x89],
   [0xE2,0x80,0x8A],[0xE2,0x80,0xA8],[0xE2,0x80,0xA9],[0xE2,0x80,0xAF],[0xE2,0x81,0x9F],
   [0xE3,0x80,0x80]]

def strip (words : List Bytes) : Nat → Bytes → Bytes
  | 0,text => text
  | fuel+1,text => match words.find? (·.isPrefixOf text) with
      | some word => strip words fuel (text.drop word.length)
      | none => text

def trimLeft (text : Bytes) : Bytes := strip blanks text.length text

-- From the right a rune is decoded back to its first byte: the same words, reversed.
def trimRight (text : Bytes) : Bytes :=
  (strip (blanks.map List.reverse) text.length text.reverse).reverse

def trimSpace (text : Bytes) : Bytes := trimRight (trimLeft text)

theorem stripSuffix (words : List Bytes) (fuel : Nat) (text : Bytes) :
    strip words fuel text <:+ text := by
  induction fuel generalizing text with
  | zero => exact List.suffix_rfl
  | succ fuel ih =>
    unfold strip
    split
    · exact (ih _).trans (List.drop_suffix _ text)
    · exact List.suffix_rfl

theorem trimSubset (text : Bytes) : trimSpace text ⊆ text := by
  intro b mem
  have right : b ∈ trimLeft text :=
    List.mem_reverse.mp ((stripSuffix _ _ _).subset (List.mem_reverse.mp mem))
  exact (stripSuffix _ _ _).subset right

theorem splitHead (d : UInt8) (text : Bytes) :
    (text.splitOn d).head? = some (text.takeWhile (· ≠ d)) := by
  induction text with
  | nil => rfl
  | cons b rest ih =>
    unfold List.splitOn at ih ⊢
    rw [List.splitOnP_cons_eq_if_modifyHead]
    by_cases here : b = d
    · simp [here]
    · simp [here,List.head?_modifyHead,ih]

theorem splitFirst {d : UInt8} {first : Bytes} (rest : Bytes) (free : d ∉ first) :
    (first ++ d :: rest).splitOn d = first :: rest.splitOn d := by
  have others : ∀ b ∈ first, (b == d) = false := by
    intro b mem
    simpa using fun same : b = d => free (same ▸ mem)
  exact List.splitOnP_append_cons_of_forall_mem others d (by simp) rest

theorem splitLength (d : UInt8) (text : Bytes) : (text.splitOn d).length = text.count d + 1 := by
  induction text with
  | nil => rfl
  | cons b rest ih =>
    rw [List.splitOn_cons_eq_if_modifyHead]
    by_cases here : b = d <;> simp [here,ih]

theorem splitFree {d : UInt8} {text piece : Bytes} (mem : piece ∈ text.splitOn d) : d ∉ piece := by
  induction text generalizing piece with
  | nil =>
    rw [List.splitOn_nil,List.mem_singleton] at mem
    simp [mem]
  | cons b rest ih =>
    rw [List.splitOn_cons_eq_if_modifyHead] at mem
    obtain ⟨first,more,same⟩ := List.exists_cons_of_ne_nil (List.splitOn_ne_nil d rest)
    by_cases here : b = d
    · simp only [here,beq_self_eq_true,if_true,List.mem_cons] at mem
      rcases mem with rfl | later
      · simp
      · exact ih later
    · have pieces : piece = b :: first ∨ piece ∈ more := by simpa [here,same] using mem
      rcases pieces with rfl | later
      · simp only [List.mem_cons,not_or]
        exact ⟨Ne.symm here,ih (by simp [same])⟩
      · exact ih (by simp [same,later])

-- strings.Trim with one byte as its cutset.
def trimByte (d : UInt8) (text : Bytes) : Bytes := (text.dropWhile (· = d)).rdropWhile (· = d)

theorem trimFree {d : UInt8} {text : Bytes} (free : d ∉ text) : trimByte d text = text := by
  have front : text.dropWhile (· = d) = text := by
    refine List.dropWhile_eq_self_iff.mpr fun some first => free ?_
    have same : text[0] = d := by simpa using first
    exact same ▸ List.getElem_mem some
  rw [trimByte,front]
  refine List.rdropWhile_eq_self_iff.mpr fun some last => free ?_
  have same : text.getLast some = d := by simpa using last
  exact same ▸ List.getLast_mem some

/- strings.ToLower as far as its result is ASCII: two letters outside of it, U+0130 and U+212A,
have their lower case in it, and no other byte of a longer rune is touched here. -/
def toLower : Bytes → Bytes
  | 0xC4::0xB0::rest => 105 :: toLower rest
  | 0xE2::0x84::0xAA::rest => 107 :: toLower rest
  | b::rest => (if 65 ≤ b ∧ b ≤ 90 then b + 32 else b) :: toLower rest
  | [] => []

def isDigit (b : UInt8) : Bool := 48 ≤ b ∧ b ≤ 57
def isFlag (b : UInt8) : Bool := b ∈ ([35,48,43,45,32] : List UInt8)

/- A number at the start of the text, if there is one, and what follows it. One that
grows past a million ends the format. -/
def numberFrom (isNum : Bool) (num : Nat) : Bytes → Option Nat × Bytes
  | [] => (if isNum then some num else none,[])
  | b::rest =>
      if isDigit b then
        if 1000000 < num then (none,[]) else numberFrom true (num * 10 + (b.toNat - 48)) rest
      else (if isNum then some num else none,b::rest)

def parsenum (text : Bytes) : Option Nat × Bytes := numberFrom false 0 text

structure Index where
  rest : Bytes
  bad : Bool
  found : Bool

/- An explicit operand index "[n]". With no operands every index is a bad one; `found`
says that it was well formed. -/
def argNumber (text : Bytes) : Index := match text with
  | 91::rest =>
      if text.length < 3 then ⟨rest,true,false⟩
      else match cut 93 rest with
        | none => ⟨rest,true,false⟩
        | some (inner,after) =>
            ⟨after,true,(parsenum inner).1.isSome && decide ((parsenum inner).2 = [])⟩
  | _ => ⟨text,false,false⟩

def badWidth : Bytes := [37,33,40,66,65,68,87,73,68,84,72,41]
def badPrec : Bytes := [37,33,40,66,65,68,80,82,69,67,41]
def noVerb : Bytes := [37,33,40,78,79,86,69,82,66,41]
def missing : Bytes := [40,77,73,83,83,73,78,71,41]
def badIndex : Bytes := [40,66,65,68,73,78,68,69,88,41]

structure Scan where
  out : Bytes
  rest : Bytes
  bad : Bool
  after : Bool

def scanIndex (s : Scan) : Scan :=
  let index := argNumber s.rest
  ⟨s.out,index.rest,s.bad || index.bad,index.found⟩

def scanWidth (s : Scan) : Scan := match s.rest with
  | 42::rest => ⟨s.out ++ badWidth,rest,s.bad,false⟩
  | _ =>
      let (num,rest) := parsenum s.rest
      ⟨s.out,rest,s.bad || (s.after && num.isSome),s.after⟩

def scanPrec (s : Scan) : Scan := match s.rest with
  | 46::rest =>
      let t := scanIndex ⟨s.out,rest,s.bad || s.after,s.after⟩
      match t.rest with
      | 42::rest => ⟨t.out ++ badPrec,rest,t.bad,false⟩
      | _ => ⟨t.out,(parsenum t.rest).2,t.bad,t.after⟩
  | _ => s

def scanLast (s : Scan) : Scan := if s.after then s else scanIndex s

def inside (low high b : UInt8) : Bool := low ≤ b ∧ b ≤ high

-- n continuation bytes, the first of them in a range of its own.
def follows (low high : UInt8) (n : Nat) : Bytes → Bool
  | [] => false
  | b::rest => inside low high b && decide (n - 1 ≤ rest.length) &&
      (rest.take (n - 1)).all (inside 0x80 0xBF)

def runeSize : Bytes → Option Nat
  | [] => none
  | b::rest =>
      if b < 0x80 then some 1
      else if inside 0xC2 0xDF b && follows 0x80 0xBF 1 rest then some 2
      else if inside 0xE0 0xEF b && follows (if b = 0xE0 then 0xA0 else 0x80)
        (if b = 0xED then 0x9F else 0xBF) 2 rest then some 3
      else if inside 0xF0 0xF4 b && follows (if b = 0xF0 then 0x90 else 0x80)
        (if b = 0xF4 then 0x8F else 0xBF) 3 rest then some 4
      else none

-- The rune at the start as it is written out again, and the text after it.
def readRune (text : Bytes) : Bytes × Bytes := match runeSize text with
  | some n => (text.take n,text.drop n)
  | none => ([0xEF,0xBF,0xBD],text.drop 1)

def writeVerb (s : Scan) : Bytes × Bytes :=
  if s.rest = [] then (s.out ++ noVerb,[])
  else
    let (verb,rest) := readRune s.rest
    if verb = [37] then (s.out ++ [37],rest)
    else (s.out ++ [37,33] ++ verb ++ (if s.bad then badIndex else missing),rest)

def directive (text : Bytes) : Bytes × Bytes :=
  writeVerb (scanLast (scanPrec (scanWidth (scanIndex ⟨[],text.dropWhile isFlag,false,false⟩))))

def format : Nat → Bytes → Bytes
  | 0,_ => []
  | _,[] => []
  | fuel+1,b::rest =>
      if b = 37 then (directive rest).1 ++ format fuel (directive rest).2
      else b :: format fuel rest

-- fmt.Fprintf(w, text)
def fprintf (text : Bytes) : Bytes := format text.length text

theorem formatPlain {fuel : Nat} {text : Bytes} (plain : 37 ∉ text) (enough : text.length ≤ fuel) :
    format fuel text = text := by
  induction text generalizing fuel with
  | nil => cases fuel <;> rfl
  | cons b rest ih =>
    cases fuel with
    | zero => simp at enough
    | succ fuel =>
      simp only [List.mem_cons,not_or] at plain
      rw [format,if_neg (Ne.symm plain.1),ih plain.2 (by simpa using enough)]

end F3.Lib.GoText
