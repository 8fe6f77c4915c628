import Mathlib.Data.List.Basic
import Mathlib.Data.List.Nodup
import Mathlib.Data.List.Infix

/-! Finite trees of named entries, each entry under its path from the root. The same
value may stand under several paths unless it is a directory, and every entry below
the root has a directory above it. -/
namespace F3.Lib
variable {κ ν : Type} [DecidableEq κ]

def findAt : List (List κ × ν) → List κ → Option ν
  | [],_ => none
  | (q,v)::rest,p => if q = p then some v else findAt rest p

theorem findMem {es : List (List κ × ν)} {p v} (found : findAt es p = some v) : (p,v) ∈ es := by
  induction es with
  | nil => simp [findAt] at found
  | cons e rest ih =>
    obtain ⟨q,w⟩ := e
    simp only [findAt] at found
    split at found
    · rename_i same
      cases Option.some.inj found
      simp [same]
    · exact List.mem_cons_of_mem _ (ih found)

theorem memFind {es : List (List κ × ν)} (nodup : (es.map Prod.fst).Nodup) {p v}
    (mem : (p,v) ∈ es) : findAt es p = some v := by
  induction es with
  | nil => simp at mem
  | cons e rest ih =>
    obtain ⟨q,w⟩ := e
    have parts := List.nodup_cons.mp nodup
    rcases List.mem_cons.mp mem with same | old
    · cases same
      simp [findAt]
    · have other : q ≠ p := by
        rintro rfl
        exact parts.1 (List.mem_map.mpr ⟨_,old,rfl⟩)
      simp [findAt,other,ih parts.2 old]

theorem absentMem {es : List (List κ × ν)} {p} (absent : findAt es p = none) :
    p ∉ es.map Prod.fst := by
  induction es with
  | nil => simp
  | cons e rest ih =>
    obtain ⟨q,w⟩ := e
    simp only [findAt] at absent
    split at absent <;> try contradiction
    rename_i other
    simp only [List.map_cons,List.mem_cons,not_or]
    exact ⟨fun same => other same.symm,ih absent⟩

theorem findFilter {es : List (List κ × ν)} {p q} :
    findAt (es.filter (fun e => e.1 ≠ p)) q = if q = p then none else findAt es q := by
  induction es with
  | nil => simp [findAt]
  | cons e rest ih =>
    obtain ⟨r,w⟩ := e
    by_cases here : r = p
    · by_cases same : q = p
      · simp [here,same] at ih ⊢
        exact ih
      · have other : ¬ p = q := fun h => same h.symm
        simp [here,same,findAt,other] at ih ⊢
        exact ih
    · by_cases hit : r = q
      · subst hit
        simp [here,findAt]
      · simp only [ne_eq,here,not_false_eq_true,decide_true,List.filter_cons_of_pos,findAt,hit,
          if_false]
        exact ih

def rebase (old new p : List κ) : List κ :=
  if old <+: p then new ++ p.drop old.length else p

theorem rebaseBelow (old new tail : List κ) : rebase old new (old ++ tail) = new ++ tail := by
  simp [rebase]

theorem rebaseOther {old new p : List κ} (apart : ¬ old <+: p) : rebase old new p = p := by
  simp [rebase,apart]

theorem findRebase {es : List (List κ × ν)} {old new : List κ}
    (free : ∀ e ∈ es, ¬ new <+: e.1) (q : List κ) :
    findAt (es.map (fun e => (rebase old new e.1,e.2))) q =
      if new <+: q then findAt es (old ++ q.drop new.length)
      else if old <+: q then none else findAt es q := by
  induction es with
  | nil => simp [findAt]
  | cons e rest ih =>
    obtain ⟨r,w⟩ := e
    have apart : ¬ new <+: r := free _ List.mem_cons_self
    have next := ih (fun e mem => free e (List.mem_cons_of_mem _ mem))
    simp only [List.map_cons,findAt,next]
    by_cases moved : old <+: r
    · obtain ⟨tail,rfl⟩ := moved
      rw [rebaseBelow]
      by_cases below : new <+: q
      · obtain ⟨tail',rfl⟩ := below
        simp [List.append_cancel_left_eq]
      · have other : ¬ new ++ tail = q := fun same => below ⟨tail,same⟩
        by_cases under : old <+: q
        · simp [below,other,under]
        · have apart : ¬ old ++ tail = q := fun same => under ⟨tail,same⟩
          simp [below,other,under,apart]
    · rw [rebaseOther moved]
      by_cases below : new <+: q
      · have other : ¬ r = q := fun same => apart (same ▸ below)
        have missed : ¬ r = old ++ q.drop new.length := fun same => moved ⟨_,same.symm⟩
        simp [below,other,missed]
      · by_cases under : old <+: q
        · have other : ¬ r = q := fun same => moved (same ▸ under)
          simp [below,under,other]
        · simp [below,under]

structure Tree (κ ν : Type) [DecidableEq κ] (dir : ν → Bool) where
  entries : List (List κ × ν)
  root : ν
  nodup : (entries.map Prod.fst).Nodup
  rooted : findAt entries [] = some root
  rootDir : dir root = true
  closed : ∀ p k v, findAt entries (p ++ [k]) = some v → ∃ d, findAt entries p = some d ∧ dir d = true
  single : ∀ p q v, findAt entries p = some v → findAt entries q = some v → dir v = true → p = q

namespace Tree
variable {dir : ν → Bool}

def find (t : Tree κ ν dir) (p : List κ) : Option ν := findAt t.entries p

theorem foundMem {t : Tree κ ν dir} {p v} : t.find p = some v ↔ (p,v) ∈ t.entries :=
  ⟨findMem,memFind t.nodup⟩

theorem foundParent {t : Tree κ ν dir} {p k v} (found : t.find (p ++ [k]) = some v) :
    ∃ d, t.find p = some d ∧ dir d = true := t.closed p k v found

theorem absentBelow {t : Tree κ ν dir} {p} (absent : t.find p = none) (tail : List κ) :
    t.find (p ++ tail) = none := by
  -- From the far end: an entry below `p` would have an entry one step nearer to it.
  induction tail using List.reverseRecOn with
  | nil => simpa using absent
  | append_singleton rest k ih =>
    cases found : t.find (p ++ (rest ++ [k])) with
    | none => rfl
    | some v =>
      rw [← List.append_assoc] at found
      obtain ⟨d,up,_⟩ := foundParent found
      exact absurd up (by simp [ih])

theorem foundAbove {t : Tree κ ν dir} {p tail v} (found : t.find (p ++ tail) = some v) (below : tail ≠ []) :
    ∃ d, t.find p = some d ∧ dir d = true := by
  obtain ⟨k,rest,rfl⟩ := List.exists_cons_of_ne_nil below
  cases here : t.find (p ++ [k]) with
  | some w => exact foundParent here
  | none =>
    have absent := absentBelow here rest
    rw [List.append_assoc,List.singleton_append,found] at absent
    cases absent

def children (t : Tree κ ν dir) (p : List κ) : List (κ × ν) :=
  t.entries.filterMap (fun e => if e.1.dropLast = p then e.1.getLast?.map (fun k => (k,e.2)) else none)

theorem childrenMem {t : Tree κ ν dir} {p k v} :
    (k,v) ∈ t.children p ↔ t.find (p ++ [k]) = some v := by
  rw [foundMem]
  constructor
  · intro mem
    obtain ⟨⟨q,w⟩,inside,same⟩ := List.mem_filterMap.mp mem
    split at same
    · rename_i up
      obtain ⟨last,isLast,pair⟩ := Option.map_eq_some_iff.mp same
      cases pair
      rwa [← up,List.dropLast_append_getLast? k isLast]
    · contradiction
  · intro mem
    exact List.mem_filterMap.mpr ⟨_,mem,by simp⟩

section Values
variable [DecidableEq ν]

def pathOf (t : Tree κ ν dir) (v : ν) : Option (List κ) :=
  (t.entries.find? (fun e => e.2 = v)).map Prod.fst

theorem pathOfFind {t : Tree κ ν dir} {p v} (placed : t.pathOf v = some p) : t.find p = some v := by
  obtain ⟨e,found,same⟩ := Option.map_eq_some_iff.mp placed
  have value : e.2 = v := by simpa using List.find?_some found
  rw [foundMem,← same,← value]
  exact List.mem_of_find?_eq_some found

theorem pathOfDir {t : Tree κ ν dir} {p v} (found : t.find p = some v) (isDir : dir v = true) :
    t.pathOf v = some p := by
  cases placed : t.pathOf v with
  | none =>
    have missed : ∀ e ∈ t.entries, ¬ e.2 = v := by simpa [pathOf] using placed
    exact absurd rfl (missed (p,v) (foundMem.mp found))
  | some q => rw [t.single p q v found (pathOfFind placed) isDir]

def links (t : Tree κ ν dir) (v : ν) : Nat := (t.entries.filter (fun e => e.2 = v)).length

theorem linkedAt {t : Tree κ ν dir} {v} (linked : ¬ t.links v = 0) : ∃ p, t.find p = some v := by
  obtain ⟨e,mem⟩ := List.exists_mem_of_length_pos (Nat.pos_of_ne_zero linked)
  obtain ⟨old,same⟩ := List.mem_filter.mp mem
  have value : e.2 = v := by simpa using same
  exact ⟨e.1,foundMem.mpr (value ▸ old)⟩

end Values

def Leaf (t : Tree κ ν dir) (p : List κ) : Prop := ∀ e ∈ t.entries, p <+: e.1 → e.1 = p
instance (t : Tree κ ν dir) (p) : Decidable (t.Leaf p) := by unfold Leaf; infer_instance

def Addable (t : Tree κ ν dir) (p : List κ) (k : κ) (v : ν) : Prop :=
  (t.find p).any dir = true ∧ t.find (p ++ [k]) = none ∧
    (dir v = true → ∀ e ∈ t.entries, e.2 ≠ v)
instance [DecidableEq ν] (t : Tree κ ν dir) (p k v) : Decidable (t.Addable p k v) := by
  unfold Addable; infer_instance

theorem findCons {es : List (List κ × ν)} {p q v} :
    findAt ((p,v)::es) q = if q = p then some v else findAt es q := by
  by_cases same : q = p
  · simp [findAt,same]
  · have other : ¬ p = q := fun h => same h.symm
    simp [findAt,same,other]

theorem addClosed {t : Tree κ ν dir} {p k v} (ok : t.Addable p k v) {q j w}
    (found : findAt ((p ++ [k],v)::t.entries) (q ++ [j]) = some w) :
    ∃ d, findAt ((p ++ [k],v)::t.entries) q = some d ∧ dir d = true := by
  have up : ∃ d, t.find q = some d ∧ dir d = true := by
    rw [findCons] at found
    split at found
    · rename_i same
      have front : q = p := (List.append_inj' same rfl).1
      rw [front]
      exact (Option.any_eq_true _ _).mp ok.1
    · exact t.closed q j w found
  obtain ⟨d,here,isDir⟩ := up
  have other : q ≠ p ++ [k] := by
    rintro rfl
    exact absurd here (by simp [ok.2.1])
  exact ⟨d,by rw [findCons,if_neg other]; exact here,isDir⟩

theorem addSingle {t : Tree κ ν dir} {p k v} (ok : t.Addable p k v) {q r w}
    (one : findAt ((p ++ [k],v)::t.entries) q = some w)
    (two : findAt ((p ++ [k],v)::t.entries) r = some w) (isDir : dir w = true) : q = r := by
  rw [findCons] at one two
  split at one
  · rename_i here
    cases Option.some.inj one
    split at two
    · rename_i there
      rw [here,there]
    · exact absurd rfl (ok.2.2 isDir _ (findMem two))
  · split at two
    · cases Option.some.inj two
      exact absurd rfl (ok.2.2 isDir _ (findMem one))
    · exact t.single q r w one two isDir

def add (t : Tree κ ν dir) (p : List κ) (k : κ) (v : ν) (ok : t.Addable p k v) : Tree κ ν dir where
  entries := (p ++ [k],v) :: t.entries
  root := t.root
  nodup := List.nodup_cons.mpr ⟨absentMem ok.2.1,t.nodup⟩
  rooted := by
    rw [findCons,if_neg (by simp)]
    exact t.rooted
  rootDir := t.rootDir
  closed := fun _ _ _ found => addClosed ok found
  single := fun _ _ _ one two isDir => addSingle ok one two isDir

theorem findAdd {t : Tree κ ν dir} {p k v} (ok : t.Addable p k v) (q) :
    (t.add p k v ok).find q = if q = p ++ [k] then some v else t.find q := findCons

def Removable (t : Tree κ ν dir) (p : List κ) : Prop := p ≠ [] ∧ t.Leaf p
instance (t : Tree κ ν dir) (p) : Decidable (t.Removable p) := by unfold Removable; infer_instance

theorem removeClosed {t : Tree κ ν dir} {p} (ok : t.Removable p) {q j w}
    (found : findAt (t.entries.filter (fun e => e.1 ≠ p)) (q ++ [j]) = some w) :
    ∃ d, findAt (t.entries.filter (fun e => e.1 ≠ p)) q = some d ∧ dir d = true := by
  rw [findFilter] at found
  split at found <;> try contradiction
  obtain ⟨d,up,isDir⟩ := t.closed q j w found
  have other : q ≠ p := by
    rintro rfl
    have leaf : q ++ [j] = q := ok.2 _ (findMem found) (List.prefix_append q [j])
    simp at leaf
  exact ⟨d,by rw [findFilter,if_neg other]; exact up,isDir⟩

theorem removeSingle {t : Tree κ ν dir} {p q r w}
    (one : findAt (t.entries.filter (fun e => e.1 ≠ p)) q = some w)
    (two : findAt (t.entries.filter (fun e => e.1 ≠ p)) r = some w) (isDir : dir w = true) :
    q = r := by
  rw [findFilter] at one two
  split at one <;> try contradiction
  split at two <;> try contradiction
  exact t.single q r w one two isDir

def remove (t : Tree κ ν dir) (p : List κ) (ok : t.Removable p) : Tree κ ν dir where
  entries := t.entries.filter (fun e => e.1 ≠ p)
  root := t.root
  nodup := t.nodup.sublist (List.filter_sublist.map Prod.fst)
  rooted := by
    rw [findFilter,if_neg (fun same => ok.1 same.symm)]
    exact t.rooted
  rootDir := t.rootDir
  closed := fun _ _ _ found => removeClosed ok found
  single := fun _ _ _ one two isDir => removeSingle one two isDir

theorem findRemove {t : Tree κ ν dir} {p} (ok : t.Removable p) (q) :
    (t.remove p ok).find q = if q = p then none else t.find q := findFilter

def Movable (t : Tree κ ν dir) (old new : List κ) : Prop :=
  old ≠ [] ∧ new ≠ [] ∧ ¬ old <+: new ∧ (∀ e ∈ t.entries, ¬ new <+: e.1) ∧
    (t.find new.dropLast).any dir = true
instance (t : Tree κ ν dir) (old new) : Decidable (t.Movable old new) := by
  unfold Movable; infer_instance

def moved (t : Tree κ ν dir) (old new : List κ) : List (List κ × ν) :=
  t.entries.map (fun e => (rebase old new e.1,e.2))

theorem findMoved {t : Tree κ ν dir} {old new} (ok : t.Movable old new) (q) :
    findAt (t.moved old new) q =
      if new <+: q then t.find (old ++ q.drop new.length)
      else if old <+: q then none else t.find q := findRebase ok.2.2.2.1 q

theorem movedNodup {t : Tree κ ν dir} {old new} (ok : t.Movable old new) :
    ((t.moved old new).map Prod.fst).Nodup := by
  have keys : (t.moved old new).map Prod.fst = (t.entries.map Prod.fst).map (rebase old new) := by
    simp [moved,Function.comp_def]
  rw [keys]
  refine List.Nodup.map_on ?_ t.nodup
  intro p memP q memQ same
  obtain ⟨e,memE,rfl⟩ := List.mem_map.mp memP
  obtain ⟨f,memF,rfl⟩ := List.mem_map.mp memQ
  have freeE := ok.2.2.2.1 e memE
  have freeF := ok.2.2.2.1 f memF
  by_cases below : old <+: e.1
  · obtain ⟨tail,left⟩ := below
    by_cases below' : old <+: f.1
    · obtain ⟨tail',right⟩ := below'
      rw [← left,← right,rebaseBelow,rebaseBelow] at same
      rw [← left,← right,List.append_cancel_left same]
    · rw [← left,rebaseBelow,rebaseOther below'] at same
      exact absurd ⟨tail,same⟩ freeF
  · by_cases below' : old <+: f.1
    · obtain ⟨tail',right⟩ := below'
      rw [← right,rebaseBelow,rebaseOther below] at same
      exact absurd ⟨tail',same.symm⟩ freeE
    · rwa [rebaseOther below,rebaseOther below'] at same

theorem moveClosed {t : Tree κ ν dir} {old new} (ok : t.Movable old new) {q j w}
    (found : findAt (t.moved old new) (q ++ [j]) = some w) :
    ∃ d, findAt (t.moved old new) q = some d ∧ dir d = true := by
  rw [findMoved ok] at found
  split at found
  · rename_i below
    rcases List.prefix_concat_iff.mp below with top | inside
    · -- The moved entry itself: its parent stays where it is.
      have parent : q = new.dropLast := by simp [top]
      obtain ⟨d,up,isDir⟩ := (Option.any_eq_true _ _).mp ok.2.2.2.2
      refine ⟨d,?_,isDir⟩
      have shorter : ¬ new <+: q := by
        rintro ⟨tail,rfl⟩
        simpa using congrArg List.length top
      have apart : ¬ old <+: q := fun pre => ok.2.2.1 (top ▸ pre.trans (List.prefix_append q [j]))
      rw [findMoved ok,if_neg shorter,if_neg apart,parent]
      exact up
    · obtain ⟨tail,rfl⟩ := inside
      have old' : t.find ((old ++ tail) ++ [j]) = some w := by simpa using found
      obtain ⟨d,up,isDir⟩ := foundParent old'
      exact ⟨d,by rw [findMoved ok]; simpa using up,isDir⟩
  · rename_i outside
    split at found <;> try contradiction
    rename_i apart
    obtain ⟨d,up,isDir⟩ := foundParent found
    have outside' : ¬ new <+: q := fun pre => outside (pre.trans (List.prefix_append q [j]))
    have apart' : ¬ old <+: q := fun pre => apart (pre.trans (List.prefix_append q [j]))
    exact ⟨d,by rw [findMoved ok,if_neg outside',if_neg apart']; exact up,isDir⟩

theorem movedFrom {t : Tree κ ν dir} {old new} (ok : t.Movable old new) {q w}
    (found : findAt (t.moved old new) q = some w) :
    ∃ p, t.find p = some w ∧ q = rebase old new p := by
  rw [findMoved ok] at found
  split at found
  · rename_i below
    obtain ⟨tail,rfl⟩ := below
    exact ⟨old ++ tail,by simpa using found,(rebaseBelow old new tail).symm⟩
  · split at found <;> try contradiction
    rename_i apart
    exact ⟨q,found,(rebaseOther apart).symm⟩

theorem moveSingle {t : Tree κ ν dir} {old new} (ok : t.Movable old new) {q r w}
    (one : findAt (t.moved old new) q = some w) (two : findAt (t.moved old new) r = some w)
    (isDir : dir w = true) : q = r := by
  obtain ⟨p,left,rfl⟩ := movedFrom ok one
  obtain ⟨p',right,rfl⟩ := movedFrom ok two
  rw [t.single p p' w left right isDir]

def move (t : Tree κ ν dir) (old new : List κ) (ok : t.Movable old new) : Tree κ ν dir where
  entries := t.moved old new
  root := t.root
  nodup := movedNodup ok
  rooted := by
    have top : ∀ {p : List κ}, p ≠ [] → ¬ p <+: [] := fun ne pre => ne (List.prefix_nil.mp pre)
    rw [findMoved ok,if_neg (top ok.2.1),if_neg (top ok.1)]
    exact t.rooted
  rootDir := t.rootDir
  closed := fun _ _ _ found => moveClosed ok found
  single := fun _ _ _ one two isDir => moveSingle ok one two isDir

theorem findMove {t : Tree κ ν dir} {old new} (ok : t.Movable old new) (q) :
    (t.move old new ok).find q =
      if new <+: q then t.find (old ++ q.drop new.length)
      else if old <+: q then none else t.find q := findMoved ok q

def bare (root : ν) (isDir : dir root = true) : Tree κ ν dir where
  entries := [([],root)]
  root := root
  nodup := by simp
  rooted := by simp [findAt]
  rootDir := isDir
  closed := by simp [findAt]
  single := by
    intro p q v one two _
    have left : [] = p ∧ root = v := by simpa [findAt] using one
    have right : [] = q ∧ root = v := by simpa [findAt] using two
    exact left.1.symm.trans right.1

end Tree

end F3.Lib
