import F3.Lib.GoText

/-! Slash-separated paths as Go's path package treats them: Clean drops empty elements and
dots and lets ".." take back the element before it, Join puts a slash between its elements
and cleans the result. What a path does from where it starts is a number of levels up and
then names down. -/
namespace F3.Lib.GoPath
open Lib (Bytes)
open Lib.GoText (splitFree)

def slash : UInt8 := 47
def dot : Bytes := [46]
def dotdot : Bytes := [46,46]

/- One element read by Clean, on those it has written so far, the last one first. Behind the
root ".." has no effect, at the start of any other path it stays. -/
def enter (rooted : Bool) (out : List Bytes) (elem : Bytes) : List Bytes :=
  if elem = [] ∨ elem = dot then out
  else if elem = dotdot then match out with
    | [] => if rooted then [] else [dotdot]
    | last::rest => if last = dotdot then dotdot::out else rest
  else elem::out

def isRooted (path : Bytes) : Bool := path.head? = some slash

def elements (path : Bytes) : List Bytes :=
  ((path.splitOn slash).foldl (enter (isRooted path)) []).reverse

def clean (path : Bytes) : Bytes :=
  let text := List.intercalate [slash] (elements path)
  if isRooted path then slash :: text else if text = [] then dot else text

def join (elems : List Bytes) : Bytes := match elems.filter (· ≠ []) with
  | [] => []
  | e::rest => clean (List.intercalate [slash] (e::rest))

def names (path : Bytes) : List Bytes := (path.splitOn slash).filter (· ≠ [])

def Within (dir path : Bytes) : Prop := names (clean dir) <+: names path
instance (dir path) : Decidable (Within dir path) := by unfold Within; infer_instance

structure Way where
  up : Nat
  down : List Bytes
  deriving DecidableEq, Repr

def Way.enter (w : Way) (elem : Bytes) : Way :=
  if elem = [] ∨ elem = dot then w
  else if elem = dotdot then match w.down with
    | [] => ⟨w.up + 1,[]⟩
    | _::rest => ⟨w.up,rest⟩
  else ⟨w.up,elem::w.down⟩

def way (path : Bytes) : Way := (path.splitOn slash).foldl Way.enter ⟨0,[]⟩

def Name (elem : Bytes) : Prop := elem ≠ [] ∧ elem ≠ dotdot ∧ slash ∉ elem

theorem enterNames {out : List Bytes} {elem : Bytes} (plain : ∀ x ∈ out, Name x) (free : slash ∉ elem) :
    ∀ x ∈ enter true out elem, Name x := by
  unfold enter
  split
  · exact plain
  · rename_i some
    split
    · split
      · simp
      · rename_i last rest
        rw [if_neg (plain last List.mem_cons_self).2.1]
        exact fun x mem => plain x (List.mem_cons_of_mem last mem)
    · rename_i other
      intro x mem
      rcases List.mem_cons.mp mem with rfl | old
      · exact ⟨fun empty => some (.inl empty),other,free⟩
      · exact plain x old

theorem foldNames {elems out : List Bytes} (plain : ∀ x ∈ out, Name x) (free : ∀ x ∈ elems, slash ∉ x) :
    ∀ x ∈ elems.foldl (enter true) out, Name x := by
  induction elems generalizing out with
  | nil => exact plain
  | cons elem rest ih =>
    exact ih (enterNames plain (free elem List.mem_cons_self))
      fun x mem => free x (List.mem_cons_of_mem elem mem)

theorem rootedElements {path : Bytes} (rooted : isRooted path = true) : ∀ x ∈ elements path, Name x := by
  intro x mem
  rw [elements,rooted,List.mem_reverse] at mem
  exact foldNames (by simp) (fun _ piece => splitFree piece) x mem

theorem cleanNames {path : Bytes} (rooted : isRooted path = true) : names (clean path) = elements path := by
  have plain := rootedElements rooted
  rw [names,clean,if_pos rooted,List.splitOn_cons_eq_if_modifyHead]
  simp only [beq_self_eq_true,if_true,List.filter_cons,ne_eq,not_true_eq_false,decide_false,Bool.false_eq_true,
    if_false]
  by_cases none : elements path = []
  · simp [none]
  · rw [List.splitOn_intercalate slash (fun x mem => (plain x mem).2.2) none]
    exact List.filter_eq_self.mpr fun x mem => by simpa using (plain x mem).1

theorem wayPlain {w : Way} (plain : dotdot ∉ w.down) (elem : Bytes) : dotdot ∉ (w.enter elem).down := by
  unfold Way.enter
  split
  · exact plain
  · split
    · split
      · simp
      · rename_i last rest down
        rw [down] at plain
        exact fun mem => plain (List.mem_cons_of_mem last mem)
    · rename_i other
      simpa using ⟨Ne.symm other,plain⟩

theorem enterWay {base : List Bytes} (plain : dotdot ∉ base) {w : Way} (own : dotdot ∉ w.down) (elem : Bytes) :
    enter true (w.down ++ base.drop w.up) elem = (w.enter elem).down ++ base.drop (w.enter elem).up := by
  obtain ⟨up,down⟩ := w
  unfold enter Way.enter
  by_cases skipped : elem = [] ∨ elem = dot
  · simp only [if_pos skipped]
  by_cases back : elem = dotdot
  · simp only [if_neg skipped,if_pos back]
    cases down with
    | cons last rest =>
      have other : last ≠ dotdot := fun same => own (by simp [same])
      simp only [List.cons_append,if_neg other]
    | nil =>
      rw [← List.tail_drop]
      cases left : base.drop up with
      | nil => rfl
      | cons last rest =>
        have old : last ∈ base := List.mem_of_mem_drop (left ▸ List.mem_cons_self)
        have other : last ≠ dotdot := fun same => plain (same ▸ old)
        simp only [List.nil_append,if_neg other,List.tail_cons]
  · simp only [if_neg skipped,if_neg back,List.cons_append]

theorem foldWay {base : List Bytes} (plain : dotdot ∉ base) (elems : List Bytes) {w : Way}
    (own : dotdot ∉ w.down) : elems.foldl (enter true) (w.down ++ base.drop w.up) =
      (elems.foldl Way.enter w).down ++ base.drop (elems.foldl Way.enter w).up := by
  induction elems generalizing w with
  | nil => rfl
  | cons elem rest ih =>
    rw [List.foldl_cons,List.foldl_cons,enterWay plain own elem]
    exact ih (wayPlain own elem)

/- Where Join leads: up from the directory, but not above the root, and down again. -/
theorem joinNames {dir : Bytes} (path : Bytes) (rooted : isRooted dir = true) :
    names (join [dir,path]) = (elements dir).take ((elements dir).length - (way path).up) ++
      (way path).down.reverse := by
  obtain ⟨b,rest,isDir⟩ := List.exists_cons_of_ne_nil (show dir ≠ [] by rintro rfl; simp [isRooted] at rooted)
  by_cases none : path = []
  · subst none
    have same : join [dir,[]] = clean dir := by simp [join,isDir,List.intercalate]
    have stays : way [] = ⟨0,[]⟩ := rfl
    rw [same,cleanNames rooted,stays]
    simp
  · have joined : join [dir,path] = clean (dir ++ slash :: path) := by
      simp [join,isDir,none,List.intercalate]
    have still : isRooted (dir ++ slash :: path) = true := by
      rw [isDir] at rooted ⊢
      exact rooted
    have plain : dotdot ∉ (elements dir).reverse :=
      fun mem => (rootedElements rooted _ (List.mem_reverse.mp mem)).2.1 rfl
    have base : (dir.splitOn slash).foldl (enter true) [] = (elements dir).reverse := by
      rw [elements,rooted,List.reverse_reverse]
    have walked := @foldWay _ plain (path.splitOn slash) ⟨0,[]⟩ (by simp)
    rw [joined,cleanNames still,elements,still,List.splitOn_append_cons_self,List.foldl_append,base]
    simp only [List.nil_append,List.drop_zero] at walked
    rw [walked,List.reverse_append,List.drop_reverse,List.reverse_reverse]
    rfl

section Down
variable {path : Bytes} (plain : ∀ x ∈ names path, x ≠ dot ∧ x ≠ dotdot)
include plain

theorem wayDown : way path = ⟨0,(names path).reverse⟩ := by
  have walked : ∀ (elems out : List Bytes), (∀ x ∈ elems.filter (· ≠ []), x ≠ dot ∧ x ≠ dotdot) →
      elems.foldl Way.enter ⟨0,out⟩ = ⟨0,(elems.filter (· ≠ [])).reverse ++ out⟩ := by
    intro elems
    induction elems with
    | nil => simp
    | cons elem rest ih =>
      intro out ordinary
      by_cases none : elem = []
      · subst none
        exact ih out (by simpa using ordinary)
      · rw [List.filter_cons_of_pos (by simpa using none)] at ordinary ⊢
        obtain ⟨notDot,notUp⟩ := ordinary elem List.mem_cons_self
        have entered : Way.enter ⟨0,out⟩ elem = ⟨0,elem :: out⟩ := by simp [Way.enter,none,notDot,notUp]
        rw [List.foldl_cons,entered,ih (elem :: out) fun x mem => ordinary x (List.mem_cons_of_mem _ mem)]
        simp
  simpa [way,names] using walked (path.splitOn slash) [] plain

theorem joinDown {dir : Bytes} (rooted : isRooted dir = true) :
    names (join [dir,path]) = names (clean dir) ++ names path := by
  rw [joinNames path rooted,wayDown plain,cleanNames rooted]
  simp

end Down

-- The names of the directory that the path goes back over are the first ones it then goes down.
def Returns (dir path : Bytes) : Prop :=
  (names (clean dir)).drop ((names (clean dir)).length - (way path).up) <+: (way path).down.reverse
instance (dir path) : Decidable (Returns dir path) := by unfold Returns; infer_instance

theorem joinWithin {dir : Bytes} (path : Bytes) (rooted : isRooted dir = true) :
    Within dir (join [dir,path]) ↔ Returns dir path := by
  rw [Within,Returns,joinNames path rooted,cleanNames rooted]
  conv_lhs => lhs; rw [← List.take_append_drop ((elements dir).length - (way path).up) (elements dir)]
  exact List.prefix_append_right_inj _

end F3.Lib.GoPath
