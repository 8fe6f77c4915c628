import F3.Driver
import F3.Lib.GoText
import F3.Lib.Lines

/-! The driver's side of a download: the request line that download_file writes to the
transfer client, and what it makes of the answer. -/
namespace F3.Download
open Lib (Bytes)
open Driver (digits strtol)

-- A byte string as the C string in a buffer.
def cString (b : Bytes) : Bytes := b.takeWhile (· ≠ 0)

theorem cStringPlain {b : Bytes} (plain : 0 ∉ b) : cString b = b := by
  have each : ∀ x ∈ b, decide (x ≠ 0) = true :=
    fun x mem => by simpa using fun zero : x = 0 => plain (zero ▸ mem)
  simpa [cString] using @List.takeWhile_append_of_pos _ (· ≠ 0) b [] each

def requestLine (path : Bytes) (endByte : Nat) (servers : Bytes) : Bytes :=
  cString path ++ 44 :: (digits endByte ++ 44 :: (cString servers ++ [10]))

/- snprintf of "%s,%lu,%s\n" into 100 bytes. It returns the untruncated length, and write
is called with that length: past the buffer there is no defined message. -/
def request (path : Bytes) (endByte : Nat) (servers : Bytes) : Option Bytes :=
  if (requestLine path endByte servers).length < 100 then some (requestLine path endByte servers)
  else none

abbrev ErrorCode := {n : Nat // 0 < n}

structure Exchange where
  written : Except ErrorCode Nat
  answer : Except ErrorCode Bytes

/- A short write is only printed. Of the answer the first byte and the number behind the
second one are looked at, in a buffer of zeros. -/
def newPos (x : Exchange) : Int := match x.written,x.answer with
  | .error err,_ => -err.val
  | .ok _,.error err => -err.val
  | .ok _,.ok buf => if buf.head? = some 78 then -1 else strtol (cString (buf.drop 2))

def downloadFile (path servers : Bytes) (endByte : Nat) (x : Exchange) : Option Bytes × Int :=
  (request path endByte servers,newPos x)

/- The value is printed, and *download_done is set whatever it is. -/
def downloadFileThread (path servers : Bytes) (endByte : Nat) (x : Exchange) (_downloadDone : Bool) :
    Option Bytes × Bool := ((downloadFile path servers endByte x).1,true)

/- How the transfer client deals with one request. It may die before it answers, with its
copy of the file complete or not. -/
inductive Behaviour where
  | malformed
  | refused
  | copied (n : Nat)
  | copyError
  | died (complete : Bool)
  deriving DecidableEq, Repr

namespace Behaviour

def reply : Behaviour → Bytes
  | malformed => [78,10]
  | refused => [78,10]
  | copied n => 65 :: 44 :: (digits n ++ [10])
  | copyError => []
  | died _ => []

def completed : Behaviour → Bool
  | copied _ => true
  | died complete => complete
  | _ => false

def dies : Behaviour → Bool
  | died _ => true
  | _ => false

end Behaviour

/- What the calls can return: read gives some first part of the reply, or the end of the
stream when there is none. Only the death of the client makes a call fail. -/
structure Meets (b : Behaviour) (x : Exchange) : Prop where
  written : b.dies = false → ∃ n, x.written = .ok n
  answered : b.dies = false → ∃ buf, x.answer = .ok buf
  part : ∀ buf, x.answer = .ok buf → buf <+: b.reply ∧ (b.reply ≠ [] → buf ≠ [])

def Fails (x : Exchange) : Bool := match x.written,x.answer with
  | .ok _,.ok _ => false
  | _,_ => true

theorem strtolPositive {text : Bytes} (plain : 45 ∉ text) : 0 ≤ strtol text := by
  have sub : ∀ b ∈ text.dropWhile Driver.isSpace, b ∈ text :=
    fun b mem => (List.dropWhile_sublist _).subset mem
  unfold strtol
  split
  · rename_i rest same
    exact absurd (sub 45 (by simp [same])) plain
  · omega
  · omega

theorem digitValue {c : Char} (digit : c.isDigit = true) :
    c.toNat.toUInt8.toNat = c.toNat ∧ 48 ≤ c.toNat.toUInt8 ∧ c.toNat.toUInt8 ≤ 57 := by
  simp only [Char.isDigit,Bool.and_eq_true,decide_eq_true_eq,ge_iff_le] at digit
  have low : 48 ≤ c.toNat := digit.1
  have high : c.toNat ≤ 57 := digit.2
  have small : c.toNat.toUInt8.toNat = c.toNat := by
    simp only [Nat.toUInt8_eq,UInt8.toNat_ofNat']
    omega
  rw [UInt8.le_iff_toNat_le,UInt8.le_iff_toNat_le,small]
  exact ⟨rfl,low,high⟩

theorem digitsPlain {n : Nat} {b : UInt8} (mem : b ∈ digits n) : 48 ≤ b ∧ b ≤ 57 := by
  obtain ⟨c,digit,rfl⟩ := List.mem_map.mp mem
  exact (digitValue (Nat.isDigit_of_mem_toDigits (by decide) (by decide) digit)).2

theorem copiedPositive {n : Nat} {buf : Bytes} (part : buf <+: (Behaviour.copied n).reply) :
    0 ≤ strtol (cString (buf.drop 2)) := by
  refine strtolPositive fun minus => ?_
  have mem : 45 ∈ buf.drop 2 := (List.takeWhile_sublist _).subset minus
  have tail : buf.drop 2 <+: digits n ++ [10] := part.drop 2
  rcases List.mem_append.mp (tail.subset mem) with digit | last
  · exact absurd (digitsPlain digit).1 (by decide)
  · simp at last

theorem newPosTold {b : Behaviour} {x : Exchange} (meets : Meets b x) (complete : b.completed = true) :
    0 ≤ newPos x ↔ Fails x = false := by
  obtain ⟨written,answer⟩ := x
  cases written with
  | error err =>
    have positive := err.property
    simp only [newPos,Fails,Bool.true_eq_false,iff_false]
    omega
  | ok n =>
    cases answer with
    | error err =>
      have positive := err.property
      simp only [newPos,Fails,Bool.true_eq_false,iff_false]
      omega
    | ok buf =>
      obtain ⟨part,filled⟩ := meets.part buf rfl
      simp only [newPos,Fails,iff_true]
      cases b with
      | copied n =>
        obtain ⟨first,rest,rfl⟩ := List.exists_cons_of_ne_nil (filled (by simp [Behaviour.reply]))
        have letter : first = 65 := (List.cons_prefix_cons.mp part).1
        rw [if_neg (by simp [letter])]
        exact copiedPositive part
      | died full =>
        rw [List.prefix_nil.mp part]
        decide
      | malformed => contradiction
      | refused => contradiction
      | copyError => contradiction

theorem repliedTold {b : Behaviour} {x : Exchange} (meets : Meets b x) (replied : b.reply ≠ []) :
    0 ≤ newPos x ↔ b.completed = true := by
  have alive : b.dies = false := by
    cases b with
    | died full => exact absurd rfl replied
    | _ => rfl
  obtain ⟨n,written⟩ := meets.written alive
  obtain ⟨buf,answered⟩ := meets.answered alive
  have quiet : Fails x = false := by simp [Fails,written,answered]
  obtain ⟨part,filled⟩ := meets.part buf answered
  have refuses : b.reply = [78,10] → newPos x = -1 := by
    intro nak
    obtain ⟨first,rest,rfl⟩ := List.exists_cons_of_ne_nil (filled replied)
    rw [nak] at part
    simp [newPos,written,answered,(List.cons_prefix_cons.mp part).1]
  cases b with
  | malformed => simp [refuses rfl,Behaviour.completed]
  | refused => simp [refuses rfl,Behaviour.completed]
  | copied n => exact iff_of_true ((newPosTold meets rfl).mpr quiet) rfl
  | copyError => exact absurd rfl replied
  | died full => contradiction

theorem downloadTold {b : Behaviour} {x : Exchange} (meets : Meets b x) (path servers : Bytes)
    (endByte : Nat) (done : Bool) :
    (b.reply ≠ [] → (0 ≤ (downloadFile path servers endByte x).2 ↔ b.completed = true)) ∧
    (((0 ≤ (downloadFile path servers endByte x).2 ↔ b.completed = true) ∧
      ((downloadFileThread path servers endByte x done).2 = true → b.completed = true)) ↔
      b.completed = true ∧ Fails x = false) := by
  refine ⟨repliedTold meets,?_⟩
  constructor
  · rintro ⟨value,thread⟩
    have complete := thread rfl
    exact ⟨complete,(newPosTold meets complete).mp (value.mpr complete)⟩
  · rintro ⟨complete,quiet⟩
    exact ⟨iff_of_true ((newPosTold meets complete).mpr quiet) complete,fun _ => complete⟩

def acknowledged : Exchange := ⟨.ok 9,.ok [65,44,48,10]⟩

theorem copyAcknowledged : Meets (.copied 0) acknowledged ∧
    (0 ≤ (downloadFile [47,97] [115] 0 acknowledged).2 ↔ (Behaviour.copied 0).completed = true) ∧
    ((downloadFileThread [47,97] [115] 0 acknowledged false).2 = true →
      (Behaviour.copied 0).completed = true) := by
  have meets : Meets (.copied 0) acknowledged :=
    ⟨fun _ => ⟨9,rfl⟩,fun _ => ⟨_,rfl⟩,fun buf same => by cases Except.ok.inj same; decide⟩
  exact ⟨meets,(downloadTold meets [47,97] [115] 0 false).2.mpr (by decide)⟩

theorem copyErrorDone : Meets .copyError ⟨.ok 9,.ok []⟩ ∧ Behaviour.copyError.completed = false ∧
    (downloadFile [47,97] [115] 0 ⟨.ok 9,.ok []⟩).2 = 0 ∧
    (downloadFileThread [47,97] [115] 0 ⟨.ok 9,.ok []⟩ false).2 = true := by
  refine ⟨⟨fun _ => ⟨9,rfl⟩,fun _ => ⟨_,rfl⟩,fun buf same => ?_⟩,rfl,by decide,rfl⟩
  cases Except.ok.inj same
  decide

end F3.Download
