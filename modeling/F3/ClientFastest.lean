import F3.ClientServers
import Mathlib.Tactic.NormNum
import Mathlib.Algebra.Order.Ring.Rat

/-! Which server getServer picks when all that are left have been measured: the accumulator
keeps the least download speed, so the pick is the slowest of them. -/
namespace F3.Client.Servers
open Lib (Bytes)

section Pick
variable {R : Type} [LinearOrder R]

def Unused (serverPool : Finset Bytes) (servers : List Bytes) (s : Bytes) : Prop :=
  s ∈ servers ∧ s ∉ serverPool

def Sampled (c : Config R) (routeTable : Bytes → Option (Measures R)) (s : Bytes) : Prop :=
  ∃ m ∈ routeTable s, c.thresholdSamples ≤ m.requests

def speedOf (routeTable : Bytes → Option (Measures R)) (s : Bytes) : Option R :=
  (routeTable s).map Measures.downloadSpeed

variable {c : Config R} {routeTable : Bytes → Option (Measures R)} {serverPool : Finset Bytes}
  {servers : List Bytes}

theorem fastestRandom {i : Nat} {speed : R} {server : Bytes} :
    (fastest c routeTable serverPool i speed server servers).2 = true ↔
      ∃ s, Unused serverPool servers s ∧ ¬ Sampled c routeTable s := by
  induction servers generalizing i speed server with
  | nil => simp [fastest,Unused]
  | cons s rest ih =>
    have split : (∃ t, Unused serverPool (s::rest) t ∧ ¬ Sampled c routeTable t) ↔
        (s ∉ serverPool ∧ ¬ Sampled c routeTable s) ∨
          ∃ t, Unused serverPool rest t ∧ ¬ Sampled c routeTable t := by
      simp only [Unused,List.mem_cons]
      constructor
      · rintro ⟨t,⟨rfl | mem,free⟩,few⟩
        · exact .inl ⟨free,few⟩
        · exact .inr ⟨t,⟨mem,free⟩,few⟩
      · rintro (⟨free,few⟩ | ⟨t,⟨mem,free⟩,few⟩)
        · exact ⟨s,⟨.inl rfl,free⟩,few⟩
        · exact ⟨t,⟨.inr mem,free⟩,few⟩
    rw [split]
    unfold fastest
    by_cases used : s ∈ serverPool
    · simp [used,ih]
    · cases known : routeTable s with
      | none => simp [used,Sampled,known]
      | some measure =>
        by_cases few : measure.requests < c.thresholdSamples
        · simp [used,few,Sampled,known]
        · have enough : Sampled c routeTable s := ⟨measure,known,not_lt.mp few⟩
          simp only [used,few,enough,if_false,not_true_eq_false,and_false,false_or]
          split <;> exact ih

theorem unusedCons {s : Bytes} {rest : List Bytes} {P : Bytes → Prop} :
    (∀ t, Unused serverPool (s::rest) t → P t) ↔
      (s ∉ serverPool → P s) ∧ ∀ t, Unused serverPool rest t → P t := by
  simp only [Unused,List.mem_cons]
  constructor
  · exact fun each => ⟨fun free => each s ⟨.inl rfl,free⟩,fun t ⟨mem,free⟩ => each t ⟨.inr mem,free⟩⟩
  · rintro ⟨first,others⟩ t ⟨rfl | mem,free⟩
    · exact first free
    · exact others t ⟨mem,free⟩

structure Least (routeTable : Bytes → Option (Measures R)) (serverPool : Finset Bytes)
    (servers : List Bytes) (speed : R) (server r : Bytes) (least : R) : Prop where
  bound : ∀ s, Unused serverPool servers s → ∀ a ∈ speedOf routeTable s, least ≤ a
  pick : r = server ∧ least = speed ∨
    Unused serverPool servers r ∧ speedOf routeTable r = some least ∧ least < speed

theorem fastestLeast {i : Nat} {speed : R} {server : Bytes} (later : i ≠ 0)
    (all : ∀ s, Unused serverPool servers s → Sampled c routeTable s) :
    ∃ r least, fastest c routeTable serverPool i speed server servers = (r,false) ∧
      Least routeTable serverPool servers speed server r least := by
  induction servers generalizing i speed server with
  | nil => exact ⟨server,speed,rfl,by simp [Unused],.inl ⟨rfl,rfl⟩⟩
  | cons s rest ih =>
    obtain ⟨first,others⟩ := unusedCons.mp all
    have step : i + 1 ≠ 0 := Nat.succ_ne_zero i
    have wider : ∀ {r}, Unused serverPool rest r → Unused serverPool (s::rest) r :=
      fun unused => ⟨List.mem_cons_of_mem s unused.1,unused.2⟩
    unfold fastest
    by_cases used : s ∈ serverPool
    · obtain ⟨r,least,same,bound,pick⟩ := @ih (i + 1) speed server step others
      rw [if_pos used,same]
      refine ⟨r,least,rfl,unusedCons.mpr ⟨fun free => absurd used free,bound⟩,?_⟩
      exact pick.imp_right (And.imp_left wider)
    · obtain ⟨measure,known,enough⟩ := first used
      have known : routeTable s = some measure := known
      have recorded : speedOf routeTable s = some measure.downloadSpeed := by simp [speedOf,known]
      rw [if_neg used,known]
      simp only [not_lt.mpr enough,if_false,later,false_or]
      by_cases faster : measure.downloadSpeed < speed
      · obtain ⟨r,least,same,bound,pick⟩ := @ih (i + 1) measure.downloadSpeed s step others
        rw [if_pos faster,same]
        rcases pick with ⟨rfl,rfl⟩ | ⟨unused,speeds,less⟩
        · refine ⟨r,_,rfl,unusedCons.mpr ⟨fun _ a mem => ?_,bound⟩,.inr ⟨⟨by simp,used⟩,recorded,faster⟩⟩
          exact le_of_eq (Option.some.inj (recorded.symm.trans mem))
        · refine ⟨r,least,rfl,unusedCons.mpr ⟨fun _ a mem => ?_,bound⟩,
            .inr ⟨wider unused,speeds,less.trans faster⟩⟩
          exact le_of_lt (Option.some.inj (recorded.symm.trans mem) ▸ less)
      · obtain ⟨r,least,same,bound,pick⟩ := @ih (i + 1) speed server step others
        rw [if_neg faster,same]
        have below : least ≤ speed := by
          rcases pick with ⟨_,rfl⟩ | ⟨_,_,less⟩
          · exact le_refl _
          · exact le_of_lt less
        refine ⟨r,least,rfl,unusedCons.mpr ⟨fun _ a mem => ?_,bound⟩,
          pick.imp_right (And.imp_left wider)⟩
        exact below.trans (Option.some.inj (recorded.symm.trans mem) ▸ not_lt.mp faster)

theorem slowestPicked (some_ : ∃ s, Unused serverPool servers s)
    (all : ∀ s, Unused serverPool servers s → Sampled c routeTable s)
    (finite : ∀ s, Unused serverPool servers s → ∀ a ∈ speedOf routeTable s, a < c.maxFloat64) :
    ∃ r least, fastest c routeTable serverPool 0 c.maxFloat64 [] servers = (r,false) ∧
      Unused serverPool servers r ∧ speedOf routeTable r = some least ∧
      ∀ s, Unused serverPool servers s → ∀ a ∈ speedOf routeTable s, least ≤ a := by
  obtain ⟨t,mem,free⟩ := some_
  obtain ⟨s,rest,rfl⟩ := List.exists_cons_of_ne_nil (List.ne_nil_of_mem mem)
  obtain ⟨first,others⟩ := unusedCons.mp all
  have wider : ∀ {r}, Unused serverPool rest r → Unused serverPool (s::rest) r :=
    fun unused => ⟨List.mem_cons_of_mem s unused.1,unused.2⟩
  unfold fastest
  by_cases used : s ∈ serverPool
  · obtain ⟨r,least,same,bound,pick⟩ := @fastestLeast _ _ c routeTable serverPool rest 1 c.maxFloat64 [] (by simp) others
    rw [if_pos used,same]
    refine ⟨r,least,rfl,?_⟩
    rcases pick with ⟨_,rfl⟩ | ⟨unused,speeds,_⟩
    · -- The accumulator is left as it was: the server that is not used would be faster.
      have elsewhere : Unused serverPool rest t := by
        refine ⟨(List.mem_cons.mp mem).resolve_left ?_,free⟩
        rintro rfl
        exact free used
      obtain ⟨measure,known,_⟩ := others t elsewhere
      have speeds : measure.downloadSpeed ∈ speedOf routeTable t := by
        simp only [speedOf,Option.mem_def.mp known,Option.map_some,Option.mem_def]
      exact absurd (bound t elsewhere _ speeds) (not_le.mpr (finite t (wider elsewhere) _ speeds))
    · exact ⟨wider unused,speeds,unusedCons.mpr ⟨fun free => absurd used free,bound⟩⟩
  · obtain ⟨measure,known,enough⟩ := first used
    have known : routeTable s = some measure := known
    have recorded : speedOf routeTable s = some measure.downloadSpeed := by simp [speedOf,known]
    obtain ⟨r,least,same,bound,pick⟩ := @fastestLeast _ _ c routeTable serverPool rest 1 measure.downloadSpeed s
      (by simp) others
    rw [if_neg used,known]
    simp only [not_lt.mpr enough,if_false,true_or,if_true,same]
    refine ⟨r,least,rfl,?_⟩
    rcases pick with ⟨rfl,rfl⟩ | ⟨unused,speeds,less⟩
    · refine ⟨⟨by simp,used⟩,recorded,unusedCons.mpr ⟨fun _ a mem => ?_,bound⟩⟩
      exact le_of_eq (Option.some.inj (recorded.symm.trans mem))
    · refine ⟨wider unused,speeds,unusedCons.mpr ⟨fun _ a mem => ?_,bound⟩⟩
      exact le_of_lt (Option.some.inj (recorded.symm.trans mem) ▸ less)

theorem drawnUnused {draws : List Nat} (named : servers ≠ [])
    (hits : ∃ d ∈ draws, servers.getD (d % servers.length) [] ∉ serverPool) :
    ∃ r, drawServer servers serverPool draws = some r ∧ Unused serverPool servers r := by
  induction draws with
  | nil => simp at hits
  | cons d rest ih =>
    have inside := Nat.mod_lt d (List.length_pos_iff.mpr named)
    have mem : servers.getD (d % servers.length) [] ∈ servers := by
      rw [List.getD_eq_getElem?_getD,List.getElem?_eq_getElem inside,Option.getD_some]
      exact List.getElem_mem inside
    simp only [drawServer]
    by_cases used : servers.getD (d % servers.length) [] ∈ serverPool
    · rw [if_pos used]
      refine ih ?_
      obtain ⟨e,there,free⟩ := hits
      refine ⟨e,(List.mem_cons.mp there).resolve_left ?_,free⟩
      rintro rfl
      exact free used
    · exact ⟨_,if_neg used,mem,used⟩

def Fastest (c : Config R) (routeTable : Bytes → Option (Measures R)) (serverPool : Finset Bytes)
    (servers : List Bytes) (r : Bytes) : Prop :=
  Unused serverPool servers r ∧ ((∀ s, Unused serverPool servers s → Sampled c routeTable s) →
    ∃ most ∈ speedOf routeTable r, ∀ s, Unused serverPool servers s →
      ∀ a ∈ speedOf routeTable s, a ≤ most)

end Pick

theorem fastestPicked {R : Type} [LinearOrder R] (c : Config R) (routeTable : Bytes → Option (Measures R))
    {serverPool : Finset Bytes} {servers : List Bytes} {draws : List Nat}
    (left : ∃ s, Unused serverPool servers s)
    (hits : ∃ d ∈ draws, servers.getD (d % servers.length) [] ∉ serverPool)
    (finite : ∀ s, Unused serverPool servers s → ∀ a ∈ speedOf routeTable s, a < c.maxFloat64) :
    (∃ r, getServer c routeTable servers serverPool draws = some r ∧ Fastest c routeTable serverPool servers r) ↔
      (∃ s, Unused serverPool servers s ∧ ¬ Sampled c routeTable s) ∨
      ∀ s t, Unused serverPool servers s → Unused serverPool servers t →
        speedOf routeTable s = speedOf routeTable t := by
  have named : servers ≠ [] := List.ne_nil_of_mem left.choose_spec.1
  by_cases few : ∃ s, Unused serverPool servers s ∧ ¬ Sampled c routeTable s
  · refine iff_of_true ?_ (.inl few)
    obtain ⟨r,drawn,unused⟩ := drawnUnused named hits
    have random := (@fastestRandom _ _ c routeTable serverPool servers 0 c.maxFloat64 []).mpr few
    refine ⟨r,?_,unused,fun all => ?_⟩
    · unfold getServer
      split
      · exact drawn
      · rename_i same
        rw [same] at random
        contradiction
    · obtain ⟨s,there,lacks⟩ := few
      exact absurd (all s there) lacks
  · have all : ∀ s, Unused serverPool servers s → Sampled c routeTable s :=
      fun s unused => by_contra fun lacks => few ⟨s,unused,lacks⟩
    obtain ⟨r,least,same,unused,speeds,bound⟩ := slowestPicked left all finite
    have picked : getServer c routeTable servers serverPool draws = some r := by
      simp [getServer,same]
    have recorded : ∀ s, Unused serverPool servers s → ∃ a, speedOf routeTable s = some a := by
      intro s there
      obtain ⟨m,known,_⟩ := all s there
      exact ⟨m.downloadSpeed,by simp only [speedOf,Option.mem_def.mp known,Option.map_some]⟩
    rw [or_iff_right few]
    constructor
    · rintro ⟨r',isR,_,fastest⟩
      cases Option.some.inj (picked.symm.trans isR)
      obtain ⟨most,isMost,above⟩ := fastest all
      cases Option.some.inj (speeds.symm.trans isMost)
      have one : ∀ s, Unused serverPool servers s → speedOf routeTable s = some least := by
        intro s there
        obtain ⟨a,isA⟩ := recorded s there
        rw [isA,le_antisymm (above s there a isA) (bound s there a isA)]
      exact fun s t there there' => (one s there).trans (one t there').symm
    · intro one
      refine ⟨r,picked,unused,fun _ => ⟨least,speeds,fun s there a isA => ?_⟩⟩
      exact le_of_eq (Option.some.inj (isA.symm.trans ((one s r there unused).trans speeds)))

def measured (a b c : ℚ) (s : Bytes) : Option (Measures ℚ) :=
  if s = [97] then some ⟨a,10⟩ else if s = [98] then some ⟨b,10⟩
  else if s = [99] then some ⟨c,10⟩ else none

def exactly : Config ℚ := ⟨fun fname => 47 :: fname,10,1000⟩

theorem equalPicked : ∃ r, getServer exactly (measured 1 5 5) [[97],[98],[99]] {[97]} [1] = some r ∧
    Fastest exactly (measured 1 5 5) {[97]} [[97],[98],[99]] r := by
  have left : ∀ s, Unused {[97]} [[97],[98],[99]] s ↔ s = [98] ∨ s = [99] := by
    intro s
    simp only [Unused,List.mem_cons,List.not_mem_nil,or_false,Finset.mem_singleton]
    constructor
    · rintro ⟨rfl | rfl | rfl,other⟩ <;> simp_all
    · rintro (rfl | rfl) <;> simp
  have speed : ∀ s, Unused {[97]} [[97],[98],[99]] s → speedOf (measured 1 5 5) s = some 5 := by
    intro s unused
    rcases (left s).mp unused with rfl | rfl <;> rfl
  refine (fastestPicked exactly (measured 1 5 5) ⟨[98],(left _).mpr (.inl rfl)⟩ ⟨1,by simp,by decide⟩ ?_).mpr (.inr ?_)
  · intro s unused a isA
    cases Option.some.inj ((speed s unused).symm.trans isA)
    simp only [exactly]
    norm_num
  · exact fun s t one two => (speed s one).trans (speed t two).symm

theorem slowerPicked : getServer exactly (measured 2 5 0) [[97],[98]] ∅ [] = some [97] ∧
    ¬ Fastest exactly (measured 2 5 0) ∅ [[97],[98]] [97] := by
  refine ⟨by decide +kernel,?_⟩
  rintro ⟨_,fastest⟩
  have sampled : ∀ s, Unused ∅ [[97],[98]] s → Sampled exactly (measured 2 5 0) s := by
    rintro s ⟨mem,_⟩
    rcases List.mem_pair.mp mem with rfl | rfl
    · exact ⟨⟨2,10⟩,rfl,by decide⟩
    · exact ⟨⟨5,10⟩,rfl,by decide⟩
  obtain ⟨most,isMost,above⟩ := fastest sampled
  cases Option.some.inj (isMost : some 2 = some most)
  have wrong := above [98] ⟨by simp,by simp⟩ 5 rfl
  norm_num at wrong

end F3.Client.Servers
