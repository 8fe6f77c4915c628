import Mathlib.Algebra.Ring.Int.Defs
import Mathlib.Algebra.Ring.Nat
import Mathlib.Data.List.Basic

/-! Byte strings as file contents. A write past the end leaves a hole that reads
as zeros; an empty write changes nothing, whatever its offset. -/
namespace F3.Lib

abbrev Bytes := List UInt8

namespace Bytes

def pwrite (content : Bytes) (off : Nat) (data : Bytes) : Bytes :=
  if data = [] then content
  else content.take off ++ List.replicate (off - content.length) 0 ++ data ++
    content.drop (off + data.length)

def truncate (content : Bytes) (size : Nat) : Bytes :=
  content.take size ++ List.replicate (size - content.length) 0

theorem truncateSize (content : Bytes) (size : Nat) : (truncate content size).length = size := by
  simp only [truncate,List.length_append,List.length_take,List.length_replicate]
  omega

theorem pwriteSize (content : Bytes) (off : Nat) {data : Bytes} (some : data ≠ []) :
    (pwrite content off data).length = max content.length (off + data.length) := by
  simp only [pwrite,if_neg some,List.length_append,List.length_take,List.length_replicate,List.length_drop]
  omega

theorem pwriteLength (content : Bytes) (off : Nat) (data : Bytes) :
    content.length ≤ (pwrite content off data).length := by
  by_cases none : data = []
  · simp [pwrite,none]
  · rw [pwriteSize content off none]
    exact Nat.le_max_left _ _

theorem pwriteCovers {content data : Bytes} (covered : content.length ≤ data.length) :
    pwrite content 0 data = data := by
  by_cases none : data = []
  · subst none
    rw [pwrite,if_pos rfl]
    exact List.eq_nil_of_length_eq_zero (Nat.le_zero.mp covered)
  · simp [pwrite,none,List.drop_eq_nil_iff.mpr covered]

theorem pwriteCovered {content data : Bytes} : pwrite content 0 data = data ↔ content.length ≤ data.length := by
  refine ⟨fun same => ?_,pwriteCovers⟩
  by_cases none : data = []
  · subst none
    rw [pwrite,if_pos rfl] at same
    rw [same]
  · have rest : content.drop data.length = [] := by simpa [pwrite,none] using same
    exact List.drop_eq_nil_iff.mp rest

theorem pwriteAppend (content : Bytes) (off : Nat) {a : Bytes} (b : Bytes) (some : a ≠ []) :
    pwrite (pwrite content off a) (off + a.length) b = pwrite content off (a ++ b) := by
  have joined : a ++ b ≠ [] := by simp [some]
  obtain ⟨head,isHead⟩ : ∃ head, head = content.take off ++
      List.replicate (off - content.length) 0 ++ a := ⟨_,rfl⟩
  have size : head.length = off + a.length := by
    simp only [isHead,List.length_append,List.length_take,List.length_replicate]
    omega
  by_cases none : b = []
  · simp [pwrite,none]
  · have first : pwrite content off a = head ++ content.drop (off + a.length) := by
      simp [pwrite,some,isHead]
    have hole : off + a.length - (head ++ content.drop (off + a.length)).length = 0 := by
      simp only [List.length_append,size]
      omega
    have tail : (head ++ content.drop (off + a.length)).drop (off + a.length + b.length) =
        content.drop (off + (a ++ b).length) := by
      rw [← size,List.drop_length_add_append,List.drop_drop,List.length_append,size,Nat.add_assoc]
    rw [first,pwrite,if_neg none,hole,tail,← size,List.take_left]
    simp [pwrite,joined,isHead]

theorem takeNext (content : Bytes) (pos n : Nat) :
    content.take pos ++ (content.drop pos).take n = content.take (pos + n) :=
  List.take_add.symm

end Bytes
end F3.Lib
