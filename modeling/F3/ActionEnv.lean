import F3.Lib.Python

/-! The OpenWhisk action cmd.py in a warm process. Its env is os.environ itself and not a copy
of it, so what an invocation sets there is there for the next one. -/
namespace F3.Action
open Lib (Bytes)
open Lib.Python
open Lib.Writes

-- "__OW_ACTIVATION_ID"
def activationID : Bytes := [95,95,79,87,95,65,67,84,73,86,65,84,73,79,78,95,73,68]
-- "PATH"
def path : Bytes := [80,65,84,72]
-- "/usr/local/bin:/usr/local/sbin:/usr/local/bin:/usr/sbin:/usr/bin:/sbin:/bin"
def defaultPath : Bytes :=
  [47,117,115,114,47,108,111,99,97,108,47,98,105,110,58,47,117,115,114,47,108,111,99,97,108,47,
    115,98,105,110,58,47,117,115,114,47,108,111,99,97,108,47,98,105,110,58,47,117,115,114,47,115,
    98,105,110,58,47,117,115,114,47,98,105,110,58,47,115,98,105,110,58,47,98,105,110]
-- "__F3_DEPTH"
def depth : Bytes := [95,95,70,51,95,68,69,80,84,72]
-- "__F3_PYTHON_STARTED"
def started : Bytes := [95,95,70,51,95,80,89,84,72,79,78,95,83,84,65,82,84,69,68]
-- "yes"
def yes : Bytes := [121,101,115]
-- "0"
def zero : Bytes := [48]
def maxDepth : Int := 4

structure Params where
  command : Option Value
  env : Option Value
  loggingDir : Option Value
  f3Depth : Option Value
  cwd : Option Value
  deriving DecidableEq, Repr

/- What the host does during an invocation: whether its name is found, the log opened for a
directory and an activation, the working directory found, the log written before the command,
and whether the command was run and the log written after it. -/
structure World where
  hostname : Bool
  opens : Value → Bytes → Bool
  getcwd : Bool
  logs : Bool
  finishes : Env → Bool

structure Invocation where
  world : World
  params : Params

structure Observation where
  refused : Bool
  -- The environment given to the command, if it came to that.
  command : Option Env

def nothing : Observation := ⟨false,none⟩

variable (b : Builtins)

-- A word of d['env'] without an equals sign is skipped; one with several raises.
def entry (e : Text) : Option (Option (Bytes × Bytes)) :=
  if 61 ∉ e then some none
  else match e.splitOn 61 with
    | [k,v] => do
        let k ← envKey b k
        let v ← envValue b v
        some (some (k,v))
    | _ => none

-- The loop over d['env'].split(); false when it raises.
def setEach : Env → List Text → Env × Bool
  | env,[] => (env,true)
  | env,e::rest => match entry b e with
      | none => (env,false)
      | some none => setEach env rest
      | some (some (k,v)) => setEach (setItem env k v) rest

def setEnv (env : Env) : Option Value → Env × Bool
  | none => (env,true)
  | some (.str text) => setEach b env (words b text)
  | some .other => (env,false)

def setPath (env : Env) : Env := if env path = none then setItem env path defaultPath else env

-- env['__F3_DEPTH'] before it is counted up.
def setDepth (env : Env) : Option Value → Option Env
  | some (.str text) => (envValue b text).map (setItem env depth)
  | some .other => none
  | none => some (if env depth = none then setItem env depth zero else env)

-- str(int(env['__F3_DEPTH']) + 1)
def counted (env : Env) : Option Bytes := do
  let text ← env depth
  let n ← b.int (b.decode text)
  let next ← b.str (n + 1)
  envValue b next

def runCommand (i : Invocation) (env : Env) : Env × Observation :=
  if i.params.cwd = none ∧ i.world.getcwd = false then (env,nothing)
  else
    let env := setItem env started yes
    if i.world.logs = false then (env,nothing)
    else (if i.world.finishes env then delItem env started else env,⟨false,some env⟩)

def checkDepth (i : Invocation) (env : Env) : Env × Observation :=
  match setDepth b env i.params.f3Depth with
  | none => (env,nothing)
  | some env => match counted b env with
      | none => (env,nothing)
      | some text =>
          let env := setItem env depth text
          match b.int (b.decode text) with
          | none => (env,nothing)
          | some n => if n > maxDepth then (env,⟨true,none⟩) else runCommand i env

def main (env : Env) (i : Invocation) : Env × Observation :=
  match i.params.command with
  | none => (env,nothing)
  | some _ =>
      let (env,ok) := setEnv b env i.params.env
      if ok = false ∨ i.world.hostname = false then (env,nothing)
      else match i.params.loggingDir,env activationID with
        | some dir,some id =>
            if i.world.opens dir id = false then (env,nothing)
            else checkDepth b i (setPath env)
        | _,_ => (env,nothing)

def observations : Env → List Invocation → List Observation
  | _,[] => []
  | env,i::rest => (main b env i).2 :: observations (main b env i).1 rest

/-! The variables an invocation sets and those it leaves changed. -/

def assignedEach : List Text → List (Bytes × Option Bytes)
  | [] => []
  | e::rest => match entry b e with
      | none => []
      | some none => assignedEach rest
      | some (some (k,v)) => (k,some v) :: assignedEach rest

def assigned : Option Value → List (Bytes × Option Bytes)
  | some (.str text) => assignedEach b (words b text)
  | _ => []

def Invocation.sets (i : Invocation) : List Bytes :=
  (assigned b i.params.env).map Prod.fst ++ if i.params.f3Depth.isSome then [depth] else []

def Invocation.leaves (init : Env) (i : Invocation) : List Bytes :=
  if i.params.command = none then []
  else ((assigned b i.params.env).filter fun e => init e.1 ≠ e.2).map Prod.fst ++
    if i.params.loggingDir.isSome then [depth] else []

def Overwrites (init : Env) (earlier later : Invocation) : Prop :=
  later.params.command = none ∨ ∀ k ∈ earlier.leaves b init, k ∈ later.sets b

def Kept (init : Env) (K : List Bytes) (env : Env) : Prop :=
  ∀ k, k ∉ K → k ≠ started → env k = init k ∨ k = path ∧ init path = none ∧ env path = some defaultPath

variable {b} {init env : Env} {K : List Bytes}

theorem setEachWrites (env : Env) (ws : List Text) : (setEach b env ws).1 = write env (assignedEach b ws) := by
  induction ws generalizing env with
  | nil => rfl
  | cons e rest ih =>
    unfold setEach assignedEach
    rcases entry b e with _ | _ | ⟨k,v⟩
    · rfl
    · exact ih env
    · exact ih (setItem env k v)

theorem setEachRaises (env env' : Env) (ws : List Text) : (setEach b env ws).2 = (setEach b env' ws).2 := by
  induction ws generalizing env env' with
  | nil => rfl
  | cons e rest ih =>
    unfold setEach
    rcases entry b e with _ | _ | ⟨k,v⟩
    · rfl
    · exact ih env env'
    · exact ih (setItem env k v) (setItem env' k v)

theorem setEnvWrites (env : Env) (given : Option Value) : (setEnv b env given).1 = write env (assigned b given) := by
  rcases given with _ | text | _
  · rfl
  · exact setEachWrites env (words b text)
  · rfl

theorem setEnvRaises (env env' : Env) (given : Option Value) : (setEnv b env given).2 = (setEnv b env' given).2 := by
  rcases given with _ | text | _
  · rfl
  · exact setEachRaises env env' (words b text)
  · rfl

theorem keptUpdate (kept : Kept init K env) {k : Bytes} (free : k ∈ K ∨ k = started) (v : Option Bytes) :
    Kept init K (Function.update env k v) := by
  intro j out mark
  have other : j ≠ k := by
    rintro rfl
    exact free.elim out mark
  rw [Function.update_of_ne other]
  refine (kept j out mark).imp_right ?_
  rintro ⟨rfl,before,now⟩
  exact ⟨rfl,before,by rw [Function.update_of_ne other,now]⟩

theorem keptPath (kept : Kept init K env) : Kept init K (setPath env) := by
  unfold setPath
  split
  · rename_i missing
    intro k out mark
    by_cases here : k = path
    · subst here
      refine .inr ⟨rfl,?_,Function.update_self ..⟩
      rcases kept path out mark with same | ⟨-,before,-⟩
      · exact same.symm.trans missing
      · exact before
    · rw [setItem,Function.update_of_ne here]
      exact .inl ((kept k out mark).resolve_right fun ⟨is,_⟩ => here is)
  · exact kept

theorem keptWrite (kept : Kept init K env) {l : List (Bytes × Option Bytes)}
    (changed : ∀ e ∈ l, init e.1 ≠ e.2 → e.1 ∈ K) : Kept init K (write env l) := by
  intro k out mark
  by_cases set : k ∈ l.map Prod.fst
  · obtain ⟨v,mem,last⟩ := written set
    refine .inl ((last env).trans ?_)
    by_contra differs
    exact out (changed (k,v) mem fun same => differs same.symm)
  · rw [unwritten env set]
    refine (kept k out mark).imp_right ?_
    rintro ⟨rfl,before,now⟩
    exact ⟨rfl,before,(unwritten env set).trans now⟩

theorem runCommandKept (kept : Kept init K env) (i : Invocation) : Kept init K (runCommand i env).1 := by
  have marked := keptUpdate kept (.inr rfl : started ∈ K ∨ started = started) (some yes)
  unfold runCommand
  split
  · exact kept
  · split
    · exact marked
    · simp only
      split
      · exact keptUpdate marked (.inr rfl) none
      · exact marked

theorem setDepthKept (kept : Kept init K env) (free : depth ∈ K) {given : Option Value} {env' : Env}
    (ok : setDepth b env given = some env') : Kept init K env' := by
  rcases given with _ | text | _
  · simp only [setDepth] at ok
    cases Option.some.inj ok
    split
    · exact keptUpdate kept (.inl free) _
    · exact kept
  · obtain ⟨v,-,rfl⟩ := Option.map_eq_some_iff.mp ok
    exact keptUpdate kept (.inl free) _
  · cases ok

theorem checkDepthKept (kept : Kept init K env) (free : depth ∈ K) (i : Invocation) :
    Kept init K (checkDepth b i env).1 := by
  unfold checkDepth
  cases set : setDepth b env i.params.f3Depth with
  | none => exact kept
  | some env' =>
    have kept' := setDepthKept kept free set
    simp only
    cases counted b env' with
    | none => exact kept'
    | some text =>
      have kept'' := keptUpdate kept' (.inl free : depth ∈ K ∨ _) (some text)
      simp only
      cases b.int (b.decode text) with
      | none => exact kept''
      | some n =>
        simp only
        split
        · exact kept''
        · exact runCommandKept kept'' i

theorem keptMore (kept : Kept init K env) (more : List Bytes) : Kept init (K ++ more) env :=
  fun k out mark => kept k (fun mem => out (List.mem_append_left more mem)) mark

theorem mainKept (kept : Kept init K env) (i : Invocation) :
    Kept init (K ++ i.leaves b init) (main b env i).1 := by
  unfold main
  cases called : i.params.command with
  | none => exact keptMore kept _
  | some cmd =>
    have set : Kept init (K ++ i.leaves b init) (setEnv b env i.params.env).1 := by
      rw [setEnvWrites]
      refine keptWrite (keptMore kept _) fun e mem differs => List.mem_append_right K ?_
      simp only [Invocation.leaves,called]
      refine List.mem_append_left _ (List.mem_map_of_mem ?_)
      simpa using ⟨mem,differs⟩
    simp only
    split
    · exact set
    · cases dir : i.params.loggingDir with
      | none => exact set
      | some d =>
        have free : depth ∈ K ++ i.leaves b init := by simp [Invocation.leaves,called,dir]
        split
        · split
          · exact set
          · exact checkDepthKept (keptPath set) free i
        · exact set

/-! Two runs of one invocation, from the initial environment and from what earlier ones left
of it. The steps of main make them agree: its own variables are written in both, then PATH is
there in both, then the depth, and at last the mark. -/

def Agree (K : List Bytes) (env env' : Env) : Prop := ∀ k, k ∉ K → k ≠ started → env k = env' k

theorem keptOwn (kept : Kept init K env) {l : List (Bytes × Option Bytes)} {K' : List Bytes}
    (own : ∀ k ∈ K, k ∈ l.map Prod.fst ∨ k ∈ K') : Kept (write init l) K' (write env l) := by
  intro k out mark
  by_cases set : k ∈ l.map Prod.fst
  · obtain ⟨v,-,last⟩ := written set
    exact .inl ((last env).trans (last init).symm)
  · rw [unwritten env set,unwritten init set]
    refine (kept k (fun mem => (own k mem).elim set out) mark).imp_right ?_
    rintro ⟨rfl,before,now⟩
    exact ⟨rfl,(unwritten init set).trans before,(unwritten env set).trans now⟩

theorem setPathAt (env : Env) : setPath env path = some ((env path).getD defaultPath) := by
  unfold setPath
  cases there : env path <;> simp [setItem,there]

theorem setPathOther (env : Env) {k : Bytes} (other : k ≠ path) : setPath env k = env k := by
  unfold setPath
  split
  · exact Function.update_of_ne other ..
  · rfl

theorem pathAgree (kept : Kept init K env) : Agree K (setPath env) (setPath init) := by
  intro k out mark
  by_cases here : k = path
  · subst here
    rw [setPathAt,setPathAt]
    rcases kept path out mark with same | ⟨-,before,now⟩
    · rw [same]
    · rw [before,now]
      rfl
  · rw [setPathOther env here,setPathOther init here]
    exact (kept k out mark).resolve_right fun ⟨is,_⟩ => here is

theorem agreeSet {env' : Env} (agree : Agree K env env') (k v : Bytes) :
    Agree (K.filter (· ≠ k)) (setItem env k v) (setItem env' k v) := by
  intro j out mark
  by_cases here : j = k
  · subst here
    rw [setItem,setItem,Function.update_self,Function.update_self]
  · rw [setItem,setItem,Function.update_of_ne here,Function.update_of_ne here]
    exact agree j (fun mem => out (by simpa [here] using mem)) mark

theorem depthAgree {env' : Env} {given : Option Value} (agree : Agree K env env')
    (own : ∀ k ∈ K, k = depth ∧ given.isSome) :
    (setDepth b env given = none ∧ setDepth b env' given = none) ∨
      ∃ e e', setDepth b env given = some e ∧ setDepth b env' given = some e' ∧ Agree [] e e' := by
  rcases given with _ | text | _
  · obtain rfl : K = [] := List.eq_nil_iff_forall_not_mem.mpr fun k mem => by simpa using (own k mem).2
    refine .inr ⟨_,_,rfl,rfl,?_⟩
    rw [agree depth List.not_mem_nil (by decide)]
    split
    · exact agreeSet agree depth zero
    · exact agree
  · have cleared : K.filter (· ≠ depth) = [] := by
      simpa [List.filter_eq_nil_iff] using fun k mem => (own k mem).1
    simp only [setDepth]
    cases envValue b text with
    | none => exact .inl ⟨rfl,rfl⟩
    | some v => exact .inr ⟨_,_,rfl,rfl,cleared ▸ agreeSet agree depth v⟩
  · exact .inl ⟨rfl,rfl⟩

theorem runCommandSame {env' : Env} (agree : Agree [] env env') (i : Invocation) :
    (runCommand i env).2 = (runCommand i env').2 := by
  have same : setItem env started yes = setItem env' started yes := by
    funext k
    by_cases mark : k = started
    · rw [mark,setItem,setItem,Function.update_self,Function.update_self]
    · rw [setItem,setItem,Function.update_of_ne mark,Function.update_of_ne mark]
      exact agree k List.not_mem_nil mark
  unfold runCommand
  rw [same]
  split_ifs <;> rfl

theorem checkDepthSame {env' : Env} {i : Invocation} (agree : Agree K env env')
    (own : ∀ k ∈ K, k = depth ∧ i.params.f3Depth.isSome) :
    (checkDepth b i env).2 = (checkDepth b i env').2 := by
  unfold checkDepth
  rcases depthAgree agree own with ⟨raised,raised'⟩ | ⟨e,e',set,set',agree⟩
  · rw [raised,raised']
  · have count : counted b e = counted b e' := by
      unfold counted
      rw [agree depth List.not_mem_nil (by decide)]
    simp only [set,set',count]
    cases counted b e' with
    | none => rfl
    | some text =>
      simp only
      cases b.int (b.decode text) with
      | none => rfl
      | some n =>
        simp only
        split
        · rfl
        · exact runCommandSame (agreeSet agree depth text) i

theorem mainSame {i : Invocation} (kept : Kept init K env)
    (own : i.params.command = none ∨ ∀ k ∈ K, k ∈ i.sets b) : (main b env i).2 = (main b init i).2 := by
  unfold main
  cases called : i.params.command with
  | none => rfl
  | some cmd =>
    have covered := own.resolve_left (by simp [called])
    let K' := if i.params.f3Depth.isSome then [depth] else []
    have kept' : Kept (setEnv b init i.params.env).1 K' (setEnv b env i.params.env).1 := by
      rw [setEnvWrites,setEnvWrites]
      exact keptOwn kept fun k mem => List.mem_append.mp (covered k mem)
    have small : ∀ k ∈ K', k = depth ∧ i.params.f3Depth.isSome := by
      intro k mem
      simp only [K'] at mem
      split at mem <;> simp_all
    have id : (setEnv b env i.params.env).1 activationID = (setEnv b init i.params.env).1 activationID := by
      refine (kept' activationID (fun mem => ?_) (by decide)).resolve_right fun ⟨is,_⟩ => absurd is (by decide)
      exact absurd (small _ mem).1 (by decide)
    simp only [setEnvRaises env init,id]
    split
    · rfl
    · split
      · split
        · rfl
        · exact checkDepthSame (pathAgree kept') small
      · rfl

theorem observationsSame {calls : List Invocation} (kept : Kept init K env) (own : calls.Pairwise (Overwrites b init))
    (covered : ∀ i ∈ calls, i.params.command = none ∨ ∀ k ∈ K, k ∈ i.sets b) :
    observations b env calls = calls.map fun i => (main b init i).2 := by
  induction calls generalizing env K with
  | nil => rfl
  | cons i rest ih =>
    obtain ⟨first,own⟩ := List.pairwise_cons.mp own
    rw [observations,List.map_cons,mainSame kept (covered i List.mem_cons_self)]
    refine congrArg _ (ih (mainKept kept i) own fun j mem => ?_)
    rcases covered j (List.mem_cons_of_mem i mem) with none | earlier
    · exact .inl none
    · refine (first j mem).imp_right fun later k among => ?_
      exact (List.mem_append.mp among).elim (earlier k) (later k)

theorem isolated (b : Builtins) (init : Env) (calls : List Invocation) (own : calls.Pairwise (Overwrites b init)) :
    observations b init calls = calls.map fun i => (main b init i).2 :=
  observationsSame (fun _ _ _ => .inl rfl : Kept init [] init) own fun _ _ => .inr (by simp)

def atWork : World := ⟨true,fun _ _ => true,true,true,fun _ => true⟩
-- PATH is "/b" and the activation "a".
def initial : Env := setItem (setItem (fun _ => none) path [47,98]) activationID [97]

-- {"command": "c", "logging-dir": "l"}, and what of "env" and "f3Depth" is given.
def call (env f3Depth : Option Text) : Invocation :=
  ⟨atWork,⟨some (.str [99]),env.map .str,some (.str [108]),f3Depth.map .str,none⟩⟩

theorem fiveOfTheirOwn :
    (List.replicate 5 (call (some [65,61,49]) (some [48]))).Pairwise (Overwrites ascii initial) ∧
    observations ascii initial (List.replicate 5 (call (some [65,61,49]) (some [48]))) =
      (List.replicate 5 (call (some [65,61,49]) (some [48]))).map fun i => (main ascii initial i).2 := by
  have own : Overwrites ascii initial (call (some [65,61,49]) (some [48])) (call (some [65,61,49]) (some [48])) :=
    .inr (by decide)
  have each := List.pairwise_replicate.mpr (.inr own : 5 ≤ 1 ∨ _)
  exact ⟨each,isolated ascii initial _ each⟩

theorem fifthRefused :
    (observations ascii initial (List.replicate 5 (call none none))).map (·.refused) =
      [false,false,false,false,true] ∧
    (main ascii initial (call none none)).2.refused = false ∧
    ((observations ascii initial [call (some [65,61,49]) none,call none (some [48])]).map fun o =>
      o.command.bind (· [65])) = [some [49],some [49]] ∧
    ((main ascii initial (call none (some [48]))).2.command.bind (· [65])) = none ∧
    (main ascii initial (call none (some [48]))).2.command.isSome := by
  decide

end F3.Action
