import Mathlib.Data.List.Basic
import Mathlib.Data.List.Nodup

/-! Tables of values under a key, where each value also has an address of its own that
stays valid until the key is erased and is never given out again. -/
namespace F3.Lib
variable {κ ν : Type}

structure Cell (κ ν : Type) where
  addr : Nat
  key : κ
  value : ν
  deriving DecidableEq, Repr

structure Arena (κ ν : Type) where
  cells : List (Cell κ ν)
  next : Nat
  used : ∀ c ∈ cells, c.addr < next
  addrs : (cells.map Cell.addr).Nodup
  keys : (cells.map Cell.key).Nodup

namespace Arena

def empty : Arena κ ν := ⟨[],0,by simp,by simp,by simp⟩

def atKey [DecidableEq κ] (t : Arena κ ν) (k : κ) : Option (Cell κ ν) := t.cells.find? (fun c => c.key = k)
def atAddr (t : Arena κ ν) (a : Nat) : Option (Cell κ ν) := t.cells.find? (fun c => c.addr = a)

theorem atKeyMem [DecidableEq κ] {t : Arena κ ν} {k c} (found : t.atKey k = some c) :
    c ∈ t.cells ∧ c.key = k :=
  ⟨List.mem_of_find?_eq_some found,by simpa using List.find?_some found⟩

theorem atAddrMem {t : Arena κ ν} {a c} (found : t.atAddr a = some c) : c ∈ t.cells ∧ c.addr = a :=
  ⟨List.mem_of_find?_eq_some found,by simpa using List.find?_some found⟩

theorem sameKey {t : Arena κ ν} {c d} (memC : c ∈ t.cells) (memD : d ∈ t.cells)
    (same : c.key = d.key) : c = d := List.inj_on_of_nodup_map t.keys memC memD same

theorem sameAddr {t : Arena κ ν} {c d} (memC : c ∈ t.cells) (memD : d ∈ t.cells)
    (same : c.addr = d.addr) : c = d := List.inj_on_of_nodup_map t.addrs memC memD same

theorem memAtKey [DecidableEq κ] {t : Arena κ ν} {c} (mem : c ∈ t.cells) : t.atKey c.key = some c := by
  cases found : t.atKey c.key with
  | none =>
    have missed : ∀ d ∈ t.cells, ¬ d.key = c.key := by simpa [atKey] using found
    exact absurd rfl (missed c mem)
  | some d =>
    obtain ⟨memD,same⟩ := atKeyMem found
    rw [sameKey memD mem same]

theorem memAtAddr {t : Arena κ ν} {c} (mem : c ∈ t.cells) : t.atAddr c.addr = some c := by
  cases found : t.atAddr c.addr with
  | none =>
    have missed : ∀ d ∈ t.cells, ¬ d.addr = c.addr := by simpa [atAddr] using found
    exact absurd rfl (missed c mem)
  | some d =>
    obtain ⟨memD,same⟩ := atAddrMem found
    rw [sameAddr memD mem same]

theorem atKeyAbsent [DecidableEq κ] {t : Arena κ ν} {k} (absent : t.atKey k = none) :
    k ∉ t.cells.map Cell.key := by
  have missed : ∀ c ∈ t.cells, ¬ c.key = k := by simpa [atKey] using absent
  intro mem
  obtain ⟨c,memC,same⟩ := List.mem_map.mp mem
  exact missed c memC same

def insert [DecidableEq κ] (t : Arena κ ν) (k : κ) (v : ν) (absent : t.atKey k = none) :
    Arena κ ν where
  cells := ⟨t.next,k,v⟩ :: t.cells
  next := t.next + 1
  used := by
    intro c mem
    rcases List.mem_cons.mp mem with rfl | old
    · exact Nat.lt_succ_self _
    · exact Nat.lt_succ_of_lt (t.used c old)
  addrs := by
    refine List.nodup_cons.mpr ⟨?_,t.addrs⟩
    intro mem
    obtain ⟨c,memC,same⟩ := List.mem_map.mp mem
    have below := t.used c memC
    simp only [same,Nat.lt_irrefl] at below
  keys := List.nodup_cons.mpr ⟨atKeyAbsent absent,t.keys⟩

def update (a : Nat) (f : ν → ν) (c : Cell κ ν) : Cell κ ν :=
  if c.addr = a then {c with value := f c.value} else c

theorem updateAddr {a : Nat} {f : ν → ν} {c : Cell κ ν} : (update a f c).addr = c.addr := by
  unfold update; split <;> rfl

theorem updateKey {a : Nat} {f : ν → ν} {c : Cell κ ν} : (update a f c).key = c.key := by
  unfold update; split <;> rfl

def modify (t : Arena κ ν) (a : Nat) (f : ν → ν) : Arena κ ν where
  cells := t.cells.map (update a f)
  next := t.next
  used := by
    intro c mem
    obtain ⟨d,memD,rfl⟩ := List.mem_map.mp mem
    rw [updateAddr]
    exact t.used d memD
  addrs := by
    have same : (t.cells.map (update a f)).map Cell.addr = t.cells.map Cell.addr := by
      simp [Function.comp_def,updateAddr]
    rw [same]
    exact t.addrs
  keys := by
    have same : (t.cells.map (update a f)).map Cell.key = t.cells.map Cell.key := by
      simp [Function.comp_def,updateKey]
    rw [same]
    exact t.keys

def erase [DecidableEq κ] (t : Arena κ ν) (k : κ) : Arena κ ν where
  cells := t.cells.filter (fun c => c.key ≠ k)
  next := t.next
  used := fun c mem => t.used c (List.mem_filter.mp mem).1
  addrs := t.addrs.sublist (List.filter_sublist.map Cell.addr)
  keys := t.keys.sublist (List.filter_sublist.map Cell.key)

theorem atAddrUpdate (t : Arena κ ν) (a : Nat) (f : ν → ν) (b : Nat) :
    (t.modify a f).atAddr b = (t.atAddr b).map (update a f) := by
  unfold atAddr modify
  rw [List.find?_map]
  congr 2
  funext c
  simp [updateAddr]

theorem atKeyUpdate [DecidableEq κ] (t : Arena κ ν) (a : Nat) (f : ν → ν) (k : κ) :
    (t.modify a f).atKey k = (t.atKey k).map (update a f) := by
  unfold atKey modify
  rw [List.find?_map]
  congr 2
  funext c
  simp [updateKey]

theorem atAddrModify {t : Arena κ ν} {a : Nat} {f : ν → ν} {c} (here : t.atAddr a = some c) :
    (t.modify a f).atAddr a = some {c with value := f c.value} := by
  rw [atAddrUpdate,here]
  simp [update,(atAddrMem here).2]

theorem atAddrModifyOther {t : Arena κ ν} {a b : Nat} {f : ν → ν} (other : b ≠ a) :
    (t.modify a f).atAddr b = t.atAddr b := by
  rw [atAddrUpdate]
  cases here : t.atAddr b with
  | none => rfl
  | some c => simp [update,(atAddrMem here).2,other]

theorem modifyModify {t : Arena κ ν} {a : Nat} {f g : ν → ν} :
    (t.modify a f).modify a g = t.modify a (fun v => g (f v)) := by
  have each : ∀ c : Cell κ ν, update a g (update a f c) = update a (fun v => g (f v)) c := by
    intro c
    by_cases here : c.addr = a
    · simp [update,here]
    · simp [update,here]
  simp [modify,Function.comp_def,each]

theorem modifyCongr {t : Arena κ ν} {a : Nat} {f g : ν → ν} {c} (here : t.atAddr a = some c)
    (same : f c.value = g c.value) : t.modify a f = t.modify a g := by
  have each : ∀ d ∈ t.cells, update a f d = update a g d := by
    intro d mem
    by_cases hit : d.addr = a
    · obtain ⟨memC,addr⟩ := atAddrMem here
      rw [sameAddr mem memC (hit.trans addr.symm)]
      simp [update,same]
    · simp [update,hit]
  simp [modify,List.map_congr_left each]

theorem modifySame {t : Arena κ ν} {a : Nat} {f : ν → ν} {c} (here : t.atAddr a = some c)
    (same : f c.value = c.value) : t.modify a f = t := by
  have plain : update a (fun v : ν => v) = (id : Cell κ ν → Cell κ ν) := by
    funext d
    simp [update]
  rw [@modifyCongr κ ν t a f (fun v => v) c here same]
  simp [modify,plain]

theorem onlyAt {t : Arena κ ν} {a c d} (here : t.atAddr a = some c) (mem : d ∈ t.cells)
    (same : d.addr = a) : d = c := by
  obtain ⟨memC,addr⟩ := atAddrMem here
  exact sameAddr mem memC (same.trans addr.symm)

theorem allModify {t : Arena κ ν} {a : Nat} {f : ν → ν} {P : Cell κ ν → Prop}
    (others : ∀ c ∈ t.cells, c.addr ≠ a → P c)
    (here : ∀ c ∈ t.cells, c.addr = a → P {c with value := f c.value}) :
    ∀ c ∈ (t.modify a f).cells, P c := by
  intro c mem
  obtain ⟨d,old,rfl⟩ := List.mem_map.mp mem
  unfold update
  split
  · rename_i hit
    exact here d old hit
  · rename_i miss
    exact others d old miss

theorem memModify {t : Arena κ ν} (f : ν → ν) {c} (mem : c ∈ t.cells) :
    {c with value := f c.value} ∈ (t.modify c.addr f).cells :=
  List.mem_map.mpr ⟨c,mem,by simp [update]⟩

theorem memModifyOther {t : Arena κ ν} {a : Nat} (f : ν → ν) {c} (mem : c ∈ t.cells)
    (other : c.addr ≠ a) : c ∈ (t.modify a f).cells :=
  List.mem_map.mpr ⟨c,mem,by simp [update,other]⟩

theorem eraseExactly [DecidableEq κ] {t : Arena κ ν} {c} (mem : c ∈ t.cells) :
    (t.erase c.key).cells = t.cells.filter (fun d => d.addr ≠ c.addr) := by
  refine List.filter_congr (fun d memD => ?_)
  have same : d.key = c.key ↔ d.addr = c.addr :=
    ⟨fun h => by rw [sameKey memD mem h],fun h => by rw [sameAddr memD mem h]⟩
  simp [same]

theorem splitAt [DecidableEq κ] {t : Arena κ ν} {c} (mem : c ∈ t.cells) : ∃ l r, t.cells = l ++ c :: r ∧
    (∀ f, (t.modify c.addr f).cells = l ++ {c with value := f c.value} :: r) ∧
    (t.erase c.key).cells = l ++ r := by
  obtain ⟨l,r,split⟩ := List.append_of_mem mem
  have addrs := t.addrs
  rw [split,List.map_append,List.map_cons,List.nodup_middle,List.nodup_cons] at addrs
  have apart : ∀ b ∈ l ++ r, b.addr ≠ c.addr := by
    intro b near same
    exact addrs.1 (List.map_append ▸ List.mem_map.mpr ⟨b,near,same⟩)
  refine ⟨l,r,split,fun f => ?_,?_⟩
  · have beside : ∀ k : List (Cell κ ν), (∀ b ∈ k, b ∈ l ++ r) → k.map (update c.addr f) = k := by
      intro k near
      exact (List.map_congr_left fun b old => by simp [update,apart b (near b old)]).trans (List.map_id k)
    simp only [modify,split,List.map_append,List.map_cons]
    rw [beside l (fun b old => List.mem_append_left r old),beside r (fun b old => List.mem_append_right l old)]
    simp [update]
  · rw [eraseExactly mem,split,List.filter_append,List.filter_cons]
    have beside : ∀ k : List (Cell κ ν), (∀ b ∈ k, b ∈ l ++ r) → k.filter (fun d => d.addr ≠ c.addr) = k := by
      intro k near
      exact List.filter_eq_self.mpr fun b old => by simpa using apart b (near b old)
    rw [beside l (fun b old => List.mem_append_left r old),beside r (fun b old => List.mem_append_right l old)]
    simp

def enter [DecidableEq κ] (t : Arena κ ν) (k : κ) (v : ν) : Arena κ ν × Nat :=
  if absent : t.atKey k = none then (t.insert k v absent,t.next)
  else (t,((t.atKey k).map Cell.addr).getD 0)

theorem enterKnown [DecidableEq κ] {t : Arena κ ν} {k c} (v : ν) (known : t.atKey k = some c) :
    t.enter k v = (t,c.addr) := by
  simp [enter,known]

theorem enterNew [DecidableEq κ] {t : Arena κ ν} {k} (v : ν) (absent : t.atKey k = none) :
    t.enter k v = (t.insert k v absent,t.next) := by
  simp [enter,absent]

theorem atAddrInsert [DecidableEq κ] {t : Arena κ ν} {k} {v : ν} (absent : t.atKey k = none) :
    (t.insert k v absent).atAddr t.next = some ⟨t.next,k,v⟩ := by
  simp [atAddr,insert]

theorem atAddrEnter [DecidableEq κ] {t : Arena κ ν} {k a c} (v : ν) (here : t.atAddr a = some c) :
    (t.enter k v).1.atAddr a = some c := by
  cases found : t.atKey k with
  | some other =>
    rw [enterKnown v found]
    exact here
  | none =>
    rw [enterNew v found]
    obtain ⟨mem,same⟩ := atAddrMem here
    have stays : c ∈ (t.insert k v found).cells := List.mem_cons_of_mem _ mem
    rw [← same]
    exact memAtAddr stays

theorem enterOthers [DecidableEq κ] {t : Arena κ ν} {k a c} {v : ν}
    (entered : (t.enter k v).1.atAddr a = some c) (same : c.key = k) :
    ∀ d ∈ (t.enter k v).1.cells, d.addr ≠ a → d ∈ t.cells := by
  intro d mem apart
  cases found : t.atKey k with
  | some other => rwa [enterKnown v found] at mem
  | none =>
    obtain ⟨memC,addr⟩ := atAddrMem entered
    rw [enterNew v found] at mem memC
    rcases List.mem_cons.mp mem with new | old
    · have key : d.key = c.key := by rw [new,same]
      rw [sameKey mem memC key] at apart
      exact absurd addr apart
    · exact old

theorem atKeyModify [DecidableEq κ] {t : Arena κ ν} {a : Nat} {f : ν → ν} {c}
    (here : t.atAddr a = some c) : (t.modify a f).atKey c.key = some {c with value := f c.value} := by
  have new := (atAddrMem (@atAddrModify κ ν t a f c here)).1
  exact memAtKey new

theorem atKeyErase [DecidableEq κ] (t : Arena κ ν) (k : κ) : (t.erase k).atKey k = none := by
  simp [atKey,erase]

theorem atAddrErase [DecidableEq κ] {t : Arena κ ν} {a k c} (here : t.atAddr a = some c)
    (other : c.key ≠ k) : (t.erase k).atAddr a = some c := by
  obtain ⟨mem,same⟩ := atAddrMem here
  have stays : c ∈ (t.erase k).cells := List.mem_filter.mpr ⟨mem,by simpa using other⟩
  rw [← same]
  exact memAtAddr stays

theorem eraseModified [DecidableEq κ] {t : Arena κ ν} {a : Nat} {f : ν → ν} {c}
    (here : t.atAddr a = some c) :
    ((t.modify a f).erase c.key).cells = t.cells.filter (fun d => d.addr ≠ a) := by
  obtain ⟨mem,addr⟩ := atAddrMem (@atAddrModify κ ν t a f c here)
  have exact_ := eraseExactly mem
  simp only at exact_ addr
  rw [exact_,addr]
  show (t.cells.map (update a f)).filter _ = _
  rw [List.filter_map]
  have same : (fun d : Cell κ ν => decide (d.addr ≠ a)) ∘ update a f = fun d => decide (d.addr ≠ a) := by
    funext d
    simp [updateAddr]
  rw [same]
  refine (List.map_congr_left (fun d memD => ?_)).trans (List.map_id _)
  have apart : d.addr ≠ a := by simpa using (List.mem_filter.mp memD).2
  simp [update,apart]

end Arena

end F3.Lib
