import F3.ClientCopy

/-! What an 'A' says. The server sends every file from byte 0 while the client appends
to whatever the path already holds, and a request that finds an entry in the files
map reads a connection that may be over. -/
namespace F3.Client.Answer
open Lib (Bytes)
open Lib.Run (run Meets)
open Copy (Idle Level holding chunk)

/- A request that opens the connection finds the local file empty; one that reuses it
asks for the file that is being sent; the server closes only behind the last byte;
chunks are read one at a time, and nothing fails on the way. -/
def Clean (s : State) : Step → Prop
  | .request chosen => match s.file with
      | none => chosen ≠ none → s.content = []
      | some f => chosen = some f.whole
  | .serverClose => ∀ f ∈ s.file, f.delivered = f.whole.length
  | .copy _ (.read _) => Idle s.copiers
  | .copy _ .readEof => Idle s.copiers
  | .copy _ .readError => False
  | .copy _ (.appendError _) => False
  | _ => True
instance (s a) : Decidable (Clean s a) := by
  unfold Clean
  rcases a with _ | _ | _ | ⟨_,one⟩ | _ <;> try infer_instance
  · rcases s.file <;> infer_instance
  · rcases one <;> infer_instance

def Past (c : Copier) : Prop := c.phase = .drained ∨ c.phase = .closing ∨ c.phase = .finished

structure Complete (s : State) (f : File) : Prop where
  content : s.content = f.whole
  taken : f.taken = f.whole.length
  idle : Idle s.copiers

structure Sending (s : State) (f : File) : Prop where
  level : Level s.content s.copiers f
  sound : f.failed = false
  bound : f.delivered ≤ f.whole.length
  ended : f.ended = true → f.delivered = f.whole.length
  wanted : ∀ c ∈ s.copiers, c.wanted = some f.whole
  unbroken : ∀ c ∈ s.copiers, c.phase ≠ .broken
  closed : f.fdOpen = false → Complete s f
  past : ∀ c ∈ s.copiers, Past c → Complete s f

def Served (s : State) : Prop := match s.file with
  | none => s.copiers = []
  | some f => Sending s f

theorem everySet {prop : Copier → Prop} {copiers : List Copier} {i : Nat} {c : Copier}
    (all : ∀ d ∈ copiers, prop d) (new : prop c) : ∀ d ∈ copiers.set i c, prop d := by
  intro d mem
  rcases List.mem_or_eq_of_mem_set mem with old | rfl
  · exact all d old
  · exact new

theorem everyNew {prop : Copier → Prop} {copiers : List Copier} {c : Copier}
    (all : ∀ d ∈ copiers, prop d) (new : prop c) : ∀ d ∈ copiers ++ [c], prop d := by
  intro d mem
  rcases List.mem_append.mp mem with old | last
  · exact all d old
  · rw [List.mem_singleton.mp last]
    exact new

theorem openSending {s : State} {whole : Bytes} (empty : s.content = []) (none : s.copiers = []) :
    Sending ⟨some (openConnection whole),s.content,s.copiers ++ [⟨some whole,.reading⟩]⟩
      (openConnection whole) := by
  rw [empty,none,List.nil_append]
  refine ⟨Copy.openLevel whole,rfl,Nat.zero_le _,by simp [openConnection],by simp [openConnection],
    by simp,by simp [openConnection],?_⟩
  intro c mem past
  rw [List.mem_singleton.mp mem] at past
  simp [Past] at past

theorem reuseSending {s : State} {f : File} (inv : Sending s f) :
    Sending ⟨some f,s.content,s.copiers ++ [⟨some f.whole,.reading⟩]⟩ f := by
  have keep : Complete s f →
      Complete ⟨some f,s.content,s.copiers ++ [⟨some f.whole,.reading⟩]⟩ f :=
    fun h => ⟨h.content,h.taken,everyNew h.idle rfl⟩
  refine ⟨Copy.levelArrive _ rfl inv.level,inv.sound,inv.bound,inv.ended,everyNew inv.wanted rfl,
    everyNew inv.unbroken (by simp),fun h => keep (inv.closed h),?_⟩
  exact everyNew (fun c old past => keep (inv.past c old past)) (by simp [Past])

theorem sendingSet {s : State} {f f' : File} {i : Nat} {c c' : Copier} (inv : Sending s f)
    (here : s.copiers[i]? = some c) (level : Level s.content (s.copiers.set i c') f')
    (whole : f'.whole = f.whole) (taken : f'.taken = f.taken) (delivered : f'.delivered = f.delivered)
    (ended : f'.ended = f.ended) (failed : f'.failed = f.failed)
    (wanted : c'.wanted = c.wanted) (free : holding c' = false) (unbroken : c'.phase ≠ .broken)
    (complete : f'.fdOpen = false ∨ Past c' → Complete s f) :
    Sending ⟨some f',s.content,s.copiers.set i c'⟩ f' := by
  have mine := List.mem_of_getElem? here
  have keep : Complete s f → Complete ⟨some f',s.content,s.copiers.set i c'⟩ f' := by
    intro h
    exact ⟨by rw [whole]; exact h.content,by rw [taken,whole]; exact h.taken,everySet h.idle free⟩
  refine ⟨level,failed.trans inv.sound,by rw [delivered,whole]; exact inv.bound,
    by rw [ended,delivered,whole]; exact inv.ended,?_,everySet inv.unbroken unbroken,
    fun h => keep (complete (Or.inl h)),?_⟩
  · rw [whole]
    exact everySet inv.wanted (wanted.trans (inv.wanted c mine))
  · exact everySet (fun d old past => keep (inv.past d old past))
      (fun past => keep (complete (Or.inr past)))

theorem chunkSending {s : State} {f : File} {i taken : Nat} {c c' : Copier} {content'}
    (inv : Sending s f) (here : s.copiers[i]? = some c)
    (level : Level content' (s.copiers.set i c') {f with taken := taken})
    (wanted : c'.wanted = c.wanted) (unbroken : c'.phase ≠ .broken) (copying : ¬ Past c')
    (incomplete : ¬ Complete s f) :
    Sending ⟨some {f with taken := taken},content',s.copiers.set i c'⟩ {f with taken := taken} := by
  have mine := List.mem_of_getElem? here
  exact ⟨level,inv.sound,inv.bound,inv.ended,everySet inv.wanted (wanted.trans (inv.wanted c mine)),
    everySet inv.unbroken unbroken,fun h => absurd (inv.closed h) incomplete,
    everySet (fun d old past => absurd (inv.past d old past) incomplete)
      (fun past => absurd past copying)⟩

theorem copySending {s : State} {f f' : File} {i : Nat} {c c' : Copier} {a content'}
    (inv : Sending s f) (here : s.copiers[i]? = some c) (clean : Clean s (.copy i a))
    (one : Copied s.content f c a content' f' c') :
    Sending ⟨some f',content',s.copiers.set i c'⟩ f' := by
  have mine := List.mem_of_getElem? here
  have level : Level content' (s.copiers.set i c') f' := by
    refine Copy.copiedLevel here one ?_ ?_ inv.level
    · intro n same
      subst same
      exact clean
    · intro n same
      subst same
      exact clean
  cases one with
  | @read n phase sound positive inside =>
    have incomplete : ¬ Complete s f := by
      intro complete
      have bound := inv.bound
      have all := complete.taken
      omega
    exact chunkSending inv here level rfl (by simp) (by simp [Past]) incomplete
  | readEof phase eof =>
    have idle : Idle s.copiers := clean
    refine sendingSet inv here level rfl rfl rfl rfl rfl rfl rfl (by simp) (fun _ => ?_)
    rcases eof with ⟨ended,drained⟩ | failed
    · have all : f.taken = f.whole.length := drained.trans (inv.ended ended)
      cases fd : f.fdOpen with
      | false => exact inv.closed fd
      | true =>
        have same := Copy.idleLevel inv.level idle fd
        rw [all,List.take_length] at same
        exact ⟨same,all,idle⟩
    · exact absurd failed (by simp [inv.sound])
  | readError phase => exact absurd clean (by simp [Clean])
  | @append b phase fd =>
    have incomplete : ¬ Complete s f :=
      fun complete => by simpa [holding,phase] using complete.idle c mine
    exact chunkSending inv here level rfl (by simp) (by simp [Past]) incomplete
  | closed phase fd =>
    have idle := (inv.closed fd).idle c mine
    simp [holding,phase] at idle
  | @appendError b n phase fd short => exact absurd clean (by simp [Clean])
  | answer phase =>
    exact sendingSet inv here level rfl rfl rfl rfl rfl rfl rfl (by simp)
      (fun _ => inv.past c mine (Or.inl phase))
  | giveUp phase => exact absurd phase (inv.unbroken c mine)
  | closeFd phase =>
    exact sendingSet inv here level rfl rfl rfl rfl rfl rfl rfl (by simp)
      (fun _ => inv.past c mine (Or.inr (Or.inl phase)))

theorem stepServed {s a t} (inv : Served s) (clean : Clean s a) (ok : step s a = some t) :
    Served t := by
  cases stepped ok with
  | refused unknown => exact inv
  | @opened whole unknown =>
    simp only [Served,unknown] at inv
    simp only [Clean,unknown] at clean
    exact openSending (clean (by simp)) inv
  | @reused f chosen known =>
    simp only [Served,known] at inv ⊢
    simp only [Clean,known] at clean
    subst clean
    exact reuseSending inv
  | @deliver f n known running inside =>
    simp only [Served,known] at inv
    obtain ⟨i,solo⟩ := inv.level.solo
    refine ⟨⟨⟨i,solo.others,solo.level⟩,inv.level.behind,Nat.le_add_right_of_le inv.level.inside⟩,
      inv.sound,inside,by simp [running],inv.wanted,inv.unbroken,?_,?_⟩
    · intro fd
      have done := inv.closed fd
      exact ⟨done.content,done.taken,done.idle⟩
    · intro c mem past
      have done := inv.past c mem past
      exact ⟨done.content,done.taken,done.idle⟩
  | @serverClose f known =>
    simp only [Served,known] at inv
    have last : f.delivered = f.whole.length := clean f known
    obtain ⟨i,solo⟩ := inv.level.solo
    refine ⟨⟨⟨i,solo.others,solo.level⟩,inv.level.behind,inv.level.inside⟩,inv.sound,inv.bound,
      fun _ => last,inv.wanted,inv.unbroken,?_,?_⟩
    · intro fd
      have done := inv.closed fd
      exact ⟨done.content,done.taken,done.idle⟩
    · intro c mem past
      have done := inv.past c mem past
      exact ⟨done.content,done.taken,done.idle⟩
  | @copy f i c b content' f' c' known here one =>
    simp only [Served,known] at inv
    exact copySending inv here clean one
  | restart => rfl

theorem completeWhenAnswered {content : Bytes} {steps : List Step} {s t : State} {i : Nat}
    {c : Copier} (clean : Meets step Clean (start content) steps)
    (ok : run step (start content) steps = some s) (who : s.copiers[i]? = some c)
    (answer : step s (.copy i .answer) = some t) : c.wanted = some s.content := by
  have first : Served (start content) := rfl
  have inv : Served s := Lib.Run.invariant Clean Served stepServed first clean ok
  cases stepped answer with
  | @copy f _ d _ _ _ _ known here one =>
    have same : d = c := Option.some.inj (here.symm.trans who)
    subst same
    simp only [Served,known] at inv
    have mine := List.mem_of_getElem? here
    cases one with
    | answer phase =>
      rw [(inv.past d mine (Or.inl phase)).content]
      exact inv.wanted d mine

def served : List Step :=
  [.request (some [65,66]),.deliver 2,.copy 0 (.read 2),.copy 0 .append,.serverClose,
   .copy 0 .readEof,.copy 0 .answer,.copy 0 .closeFd,.request (some [65,66]),.copy 1 .readEof]

def answering : State := ⟨some ⟨[65,66],2,2,true,false,false⟩,[65,66],
  [⟨some [65,66],.finished⟩,⟨some [65,66],.drained⟩]⟩

theorem servedAnswer : run step (start []) served = some answering ∧
    (⟨some [65,66],.drained⟩ : Copier).wanted = some answering.content :=
  ⟨by decide,@completeWhenAnswered [] served answering
    {answering with copiers := [⟨some [65,66],.finished⟩,⟨some [65,66],.closing⟩]} 1
    ⟨some [65,66],.drained⟩ (by decide) (by decide) rfl (by decide)⟩

def afterPartial : List Step :=
  [.request (some [65,66]),.deliver 2,.copy 0 (.read 2),.copy 0 .append,.serverClose,
   .copy 0 .readEof]

theorem partialCopyAnswered : ∃ s t c, run step (start [65]) afterPartial = some s ∧
    s.copiers[0]? = some c ∧ step s (.copy 0 .answer) = some t ∧ s.content = [65,65,66] ∧
    c.wanted = some [65,66] := by
  refine ⟨⟨some ⟨[65,66],2,2,true,false,true⟩,[65,65,66],[⟨some [65,66],.drained⟩]⟩,
    ⟨some ⟨[65,66],2,2,true,false,true⟩,[65,65,66],[⟨some [65,66],.closing⟩]⟩,
    ⟨some [65,66],.drained⟩,?_⟩
  decide

end F3.Client.Answer
