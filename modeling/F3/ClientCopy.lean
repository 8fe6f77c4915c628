import F3.Client

/-! What the shared descriptor receives. A chunk that one goroutine has read from the
connection and not yet appended is missing from the local file; a second goroutine
that reads in the meantime may append first. -/
namespace F3.Client.Copy
open Lib (Bytes)
open Lib.Run (run Meets)

def chunk (c : Copier) : Bytes := match c.phase with
  | .holding b => b
  | _ => []

def holding (c : Copier) : Bool := match c.phase with
  | .holding _ => true
  | _ => false

def Idle (copiers : List Copier) : Prop := ∀ c ∈ copiers, holding c = false
instance (copiers) : Decidable (Idle copiers) := by unfold Idle; infer_instance

theorem idleChunk {copiers : List Copier} (idle : Idle copiers) {i : Nat} {c : Copier}
    (here : copiers[i]? = some c) : chunk c = [] := by
  have none := idle c (List.mem_of_getElem? here)
  unfold holding at none
  unfold chunk
  split <;> simp_all

def chunkAt (copiers : List Copier) (i : Nat) : Bytes := (copiers[i]?.map chunk).getD []

structure Solo (content : Bytes) (copiers : List Copier) (f : File) (i : Nat) : Prop where
  others : ∀ j c, copiers[j]? = some c → j ≠ i → chunk c = []
  level : f.fdOpen = true → content ++ chunkAt copiers i = f.whole.take f.taken

structure Level (content : Bytes) (copiers : List Copier) (f : File) : Prop where
  solo : ∃ i, Solo content copiers f i
  behind : content <+: f.whole.take f.taken
  inside : f.taken ≤ f.delivered

theorem idleLevel {content copiers f} (level : Level content copiers f) (idle : Idle copiers)
    (fd : f.fdOpen = true) : content = f.whole.take f.taken := by
  obtain ⟨i,solo⟩ := level.solo
  have same := solo.level fd
  have empty : chunkAt copiers i = [] := by
    unfold chunkAt
    cases h : copiers[i]? with
    | none => rfl
    | some c => simpa using idleChunk idle h
  rwa [empty,List.append_nil] at same

theorem chunkAtSet {copiers : List Copier} {i : Nat} {c c' : Copier}
    (here : copiers[i]? = some c) : chunkAt (copiers.set i c') i = chunk c' := by
  have bound : i < copiers.length := (List.getElem?_eq_some_iff.mp here).1
  simp [chunkAt,bound]

theorem chunkAtOther {copiers : List Copier} {i j : Nat} (c' : Copier) (different : i ≠ j) :
    chunkAt (copiers.set i c') j = chunkAt copiers j := by
  simp [chunkAt,different]

theorem soloSet {content content' : Bytes} {copiers : List Copier} {f f' : File} {i k : Nat}
    {c c' : Copier} (here : copiers[k]? = some c) (solo : Solo content copiers f i)
    (empty : chunk c' = [])
    (level : f'.fdOpen = true → content' ++ (if k = i then [] else chunkAt copiers i) =
      f'.whole.take f'.taken) : Solo content' (copiers.set k c') f' i := by
  constructor
  · intro j d found different
    by_cases same : k = j
    · subst same
      have bound : k < copiers.length := (List.getElem?_eq_some_iff.mp here).1
      have eq : c' = d := by simpa [List.getElem?_set,bound] using found
      exact eq ▸ empty
    · exact solo.others j d (by simpa [List.getElem?_set,same] using found) different
  · intro fd
    have equal := level fd
    by_cases same : k = i
    · subst same
      rw [if_pos rfl] at equal
      rw [chunkAtSet here,empty]
      exact equal
    · rw [if_neg same] at equal
      rw [chunkAtOther c' same]
      exact equal

theorem sentNext {f : File} {n : Nat} (inside : f.taken + n ≤ f.delivered) :
    (f.sent.drop f.taken).take n = (f.whole.drop f.taken).take n := by
  unfold File.sent
  rw [List.drop_take,List.take_take,Nat.min_eq_left (by omega)]

theorem droppedLevel {content : Bytes} {copiers : List Copier} {f g : File} {k : Nat} {c d : Copier}
    (here : copiers[k]? = some c) (level : Level content copiers f) (empty : chunk d = [])
    (held : chunk c = [] ∨ g.fdOpen = false) (whole : g.whole = f.whole) (taken : g.taken = f.taken)
    (delivered : g.delivered = f.delivered) (fd : g.fdOpen = true → f.fdOpen = true) :
    Level content (copiers.set k d) g := by
  obtain ⟨i,solo⟩ := level.solo
  refine ⟨⟨i,soloSet here solo empty ?_⟩,by rw [whole,taken]; exact level.behind,
    by rw [taken,delivered]; exact level.inside⟩
  intro opened
  have same := solo.level (fd opened)
  rw [whole,taken,← same]
  by_cases me : k = i
  · subst me
    have none : chunk c = [] := held.elim id (fun closed => by simp [closed] at opened)
    simp [chunkAt,here,none]
  · rw [if_neg me]

theorem readLevel {content : Bytes} {copiers : List Copier} {f : File} {k n : Nat} {c : Copier}
    (here : copiers[k]? = some c) (level : Level content copiers f) (idle : Idle copiers)
    (inside : f.taken + n ≤ f.delivered) :
    Level content (copiers.set k {c with phase := .holding ((f.sent.drop f.taken).take n)})
      {f with taken := f.taken + n} := by
  refine ⟨⟨k,?_,?_⟩,?_,inside⟩
  · intro j d found different
    have old : copiers[j]? = some d := by simpa [List.getElem?_set,different.symm] using found
    exact idleChunk idle old
  · intro fd
    rw [chunkAtSet here]
    show content ++ (f.sent.drop f.taken).take n = f.whole.take (f.taken + n)
    rw [sentNext inside,idleLevel level idle fd]
    exact Bytes.takeNext f.whole f.taken n
  · exact level.behind.trans (List.take_prefix_take_left (Nat.le_add_right _ _))

theorem appendLevel {content b : Bytes} {copiers : List Copier} {f : File} {k : Nat} {c : Copier}
    (here : copiers[k]? = some c) (level : Level content copiers f) (mine : chunk c = b)
    (fd : f.fdOpen = true) :
    Level (content ++ b) (copiers.set k {c with phase := .reading}) f := by
  obtain ⟨i,solo⟩ := level.solo
  have appended : content ++ b ++ (if k = i then [] else chunkAt copiers i) =
      f.whole.take f.taken := by
    have same := solo.level fd
    by_cases me : k = i
    · subst me
      have mineAt : chunkAt copiers k = b := by simp [chunkAt,here,mine]
      rw [mineAt] at same
      simpa using same
    · have none : b = [] := mine ▸ solo.others k c here me
      simpa [me,none] using same
  exact ⟨⟨i,soloSet here solo rfl (fun _ => appended)⟩,⟨_,appended⟩,level.inside⟩

theorem copiedLevel {content f c a content' f' c'} {copiers : List Copier} {k : Nat}
    (here : copiers[k]? = some c) (one : Copied content f c a content' f' c')
    (alone : ∀ n, a = .read n → Idle copiers) (noError : ∀ n, a ≠ .appendError n)
    (level : Level content copiers f) : Level content' (copiers.set k c') f' := by
  cases one with
  | @read n phase sound positive inside => exact readLevel here level (alone n rfl) inside
  | readEof phase eof =>
    exact droppedLevel here level rfl (Or.inl (by simp [chunk,phase])) rfl rfl rfl id
  | readError phase =>
    exact droppedLevel here level rfl (Or.inl (by simp [chunk,phase])) rfl rfl rfl id
  | @append b phase fd => exact appendLevel here level (by simp [chunk,phase]) fd
  | closed phase fd => exact droppedLevel here level rfl (Or.inr fd) rfl rfl rfl id
  | @appendError b n phase fd short => exact absurd rfl (noError n)
  | answer phase =>
    exact droppedLevel here level rfl (Or.inl (by simp [chunk,phase])) rfl rfl rfl id
  | giveUp phase =>
    exact droppedLevel here level rfl (Or.inl (by simp [chunk,phase])) rfl rfl rfl id
  | closeFd phase =>
    exact droppedLevel here level rfl (Or.inl (by simp [chunk,phase])) rfl rfl rfl (by simp)

theorem levelArrive {content copiers f} (c : Copier) (empty : chunk c = [])
    (level : Level content copiers f) : Level content (copiers ++ [c]) f := by
  obtain ⟨i,solo⟩ := level.solo
  have place : ∀ {j : Nat} {d}, (copiers ++ [c])[j]? = some d → copiers[j]? = some d ∨ chunk d = [] := by
    intro j d found
    rw [List.getElem?_append] at found
    split at found
    · exact Or.inl found
    · rw [List.mem_singleton.mp (List.mem_of_getElem? found)]
      exact Or.inr empty
  refine ⟨⟨i,⟨?_,?_⟩⟩,level.behind,level.inside⟩
  · intro j d found different
    exact (place found).elim (fun old => solo.others j d old different) id
  · intro fd
    have same := solo.level fd
    have kept : chunkAt (copiers ++ [c]) i = chunkAt copiers i := by
      unfold chunkAt
      rw [List.getElem?_append]
      split
      · rfl
      · rename_i beyond
        rw [List.getElem?_eq_none (Nat.le_of_not_lt beyond)]
        cases h : [c][i - copiers.length]? with
        | none => rfl
        | some d =>
          rw [List.mem_singleton.mp (List.mem_of_getElem? h)]
          simpa using empty
    rw [kept]
    exact same

theorem openLevel (whole : Bytes) : Level [] [⟨some whole,.reading⟩] (openConnection whole) := by
  refine ⟨⟨0,?_,?_⟩,by simp [openConnection],Nat.le_refl 0⟩
  · intro j c found different
    rw [List.mem_singleton.mp (List.mem_of_getElem? found)]
    rfl
  · intro _
    rfl

def InTransfer : Step → Prop
  | .restart => False
  | .copy _ (.appendError _) => False
  | _ => True
instance (a) : Decidable (InTransfer a) := by
  unfold InTransfer
  rcases a with _ | _ | _ | ⟨_,one⟩ | _ <;> try infer_instance
  rcases one <;> infer_instance

def OneChunk (s : State) : Step → Prop
  | .copy _ (.read _) => Idle s.copiers
  | _ => True
instance (s a) : Decidable (OneChunk s a) := by
  unfold OneChunk
  rcases a with _ | _ | _ | ⟨_,one⟩ | _ <;> try infer_instance
  rcases one <;> infer_instance

def sent (s : State) : Bytes := (s.file.map File.sent).getD []

def Prefixed (s : State) : Prop := match s.file with
  | none => s.content = [] ∧ s.copiers = []
  | some f => Level s.content s.copiers f

theorem stepPrefixed {s a t} (inv : Prefixed s) (guard : InTransfer a ∧ OneChunk s a)
    (ok : step s a = some t) : Prefixed t := by
  cases stepped ok with
  | refused unknown => exact inv
  | @opened whole unknown =>
    simp only [Prefixed,unknown] at inv
    simp only [Prefixed,inv.1,inv.2,List.nil_append]
    exact openLevel whole
  | @reused f chosen known =>
    simp only [Prefixed,known] at inv ⊢
    exact levelArrive ⟨chosen,.reading⟩ rfl inv
  | deliver known running inside =>
    simp only [Prefixed,known] at inv
    obtain ⟨i,solo⟩ := inv.solo
    exact ⟨⟨i,solo.others,solo.level⟩,inv.behind,Nat.le_add_right_of_le inv.inside⟩
  | serverClose known =>
    simp only [Prefixed,known] at inv
    obtain ⟨i,solo⟩ := inv.solo
    exact ⟨⟨i,solo.others,solo.level⟩,inv.behind,inv.inside⟩
  | @copy f i c b content' f' c' known here one =>
    simp only [Prefixed,known] at inv
    refine copiedLevel here one ?_ ?_ inv
    · intro n same
      subst same
      exact guard.2
    · intro n same
      subst same
      exact guard.1
  | restart => exact absurd guard.1 (by simp [InTransfer])

theorem localPrefix {steps : List Step} {s : State} (transfer : ∀ a ∈ steps, InTransfer a)
    (chunks : Meets step OneChunk (start []) steps) (ok : run step (start []) steps = some s) :
    s.content <+: sent s := by
  have first : Prefixed (start []) := ⟨rfl,rfl⟩
  have inv : Prefixed s := Lib.Run.invariant _ Prefixed stepPrefixed first
    (Lib.Run.meetsAnd (Lib.Run.meetsOfMem (fun a mem _ => transfer a mem)) chunks) ok
  cases h : s.file with
  | none =>
    simp only [Prefixed,h] at inv
    simp [inv.1]
  | some f =>
    simp only [Prefixed,h] at inv
    simp only [sent,h,Option.map_some,Option.getD_some,File.sent]
    exact inv.behind.trans (List.take_prefix_take_left inv.inside)

def turns : List Step :=
  [.request (some [65,66]),.request (some [65,66]),.deliver 2,.copy 0 (.read 1),.copy 0 .append,
   .copy 1 (.read 1),.copy 1 .append]

def turned : State :=
  ⟨some ⟨[65,66],2,2,false,false,true⟩,[65,66],[⟨some [65,66],.reading⟩,⟨some [65,66],.reading⟩]⟩

theorem turnsPrefix : turned.content <+: sent turned :=
  @localPrefix turns turned (by decide) (by decide) (by decide)

def overtaking : List Step :=
  [.request (some [65,66]),.request (some [65,66]),.deliver 2,.copy 0 (.read 1),.copy 1 (.read 1),
   .copy 1 .append]

theorem overtakenChunk : ∃ s, (∀ a ∈ overtaking, InTransfer a) ∧
    run step (start []) overtaking = some s ∧ ¬ s.content <+: sent s := by
  refine ⟨⟨some ⟨[65,66],2,2,false,false,true⟩,[66],
    [⟨some [65,66],.holding [65]⟩,⟨some [65,66],.reading⟩]⟩,?_⟩
  decide

end F3.Client.Copy
