import F3.Controller
import F3.Lib.GoPath
import F3.Lib.Writes

/-! CreateVolume and the parameters of a volume. The parameters are a Go map: its keys are
distinct, but not when the case of their letters is left out, as newF3Volume does; and it is
ranged over in any order. -/
namespace F3.Csi.Controller
open Lib (Bytes)
open Lib.GoText (toLower)
open Lib.Writes

structure Params where
  entries : List (Bytes × Bytes)
  distinct : (entries.map Prod.fst).Nodup

-- An order in which the map may be ranged over.
def Params.Order (params : Params) (order : List (Bytes × Bytes)) : Prop := order.Perm params.entries

inductive Param where
  | server | share | type
  deriving DecidableEq, Repr

def paramServer : Bytes := [115,101,114,118,101,114]
def paramShare : Bytes := [115,104,97,114,101]
def paramType : Bytes := [116,121,112,101]

def paramOf (k : Bytes) : Option Param :=
  if toLower k = paramServer then some .server
  else if toLower k = paramShare then some .share
  else if toLower k = paramType then some .type
  else none

structure Values where
  server : Bytes := []
  baseDir : Bytes := []
  mountType : Bytes := []
  deriving DecidableEq, Repr

def Values.set (f : Values) (v : Bytes) : Param → Values
  | .server => {f with server := v}
  | .share => {f with baseDir := v}
  | .type => {f with mountType := v}

def Values.get (f : Values) : Param → Bytes
  | .server => f.server
  | .share => f.baseDir
  | .type => f.mountType

-- "volume capabilities must be provided" and so on; `invalidParameter` is "invalid parameter %q".
inductive Invalid where
  | name
  | noCapabilities
  | noCapability
  | noAccessMode
  | accessMode (mode : Int)
  | noAccessType
  | invalidParameter (key : Bytes)
  deriving DecidableEq, Repr

def readParams : Values → List (Bytes × Bytes) → Except Invalid Values
  | f,[] => .ok f
  | f,(k,v)::rest => match paramOf k with
      | some p => readParams (f.set v p) rest
      | none => .error (.invalidParameter k)

def newF3Volume (name : Bytes) (size : Int) (order : List (Bytes × Bytes)) : Except Invalid F3Volume := do
  let f ← readParams {} order
  pure {
    id := name
    server := f.server
    baseDir := f.baseDir
    subDir := name
    size := size
    mountType := f.mountType }

structure VolumeContext where
  server : Bytes
  share : Bytes
  type : Bytes
  deriving DecidableEq, Repr

structure Volume where
  capacityBytes : Int
  volumeId : Bytes
  volumeContext : VolumeContext
  deriving DecidableEq, Repr

-- filepath.Join of the root, the base directory and the subdirectory.
def getVolumeSharePath (vol : F3Volume) : Bytes := Lib.GoPath.join [[slash],vol.baseDir,vol.subDir]

def f3VolToCSI (vol : F3Volume) (reqCapacity : Int) : Volume :=
  ⟨reqCapacity,vol.id,⟨vol.server,getVolumeSharePath vol,vol.mountType⟩⟩

structure Capability where
  accessMode : Option Int
  accessType : Bool
  deriving DecidableEq, Repr

def validateVolumeCapability (cap : Int → Bool) : Option Capability → Except Invalid Unit
  | none => .error .noCapability
  | some c => match c.accessMode with
      | none => .error .noAccessMode
      | some mode =>
          if cap mode = false then .error (.accessMode mode)
          else if c.accessType = false then .error .noAccessType
          else .ok ()

def validateEach (cap : Int → Bool) : List (Option Capability) → Except Invalid Unit
  | [] => .ok ()
  | c::rest => do
      validateVolumeCapability cap c
      validateEach cap rest

def validateVolumeCapabilities (cap : Int → Bool) (caps : List (Option Capability)) : Except Invalid Unit :=
  if caps = [] then .error .noCapabilities else validateEach cap caps

structure Request where
  name : Bytes
  capabilities : List (Option Capability)
  requiredBytes : Int
  parameters : Params

-- Every error is sent with the code InvalidArgument.
def createVolume (cap : Int → Bool) (req : Request) (order : List (Bytes × Bytes)) : Except Invalid Volume := do
  if req.name = [] then .error .name
  else do
    validateVolumeCapabilities cap req.capabilities
    let f3Vol ← newF3Volume req.name req.requiredBytes order
    pure (f3VolToCSI f3Vol req.requiredBytes)

def Same {α : Type} : Except Invalid α → Except Invalid α → Prop
  | .ok a,.ok b => a = b
  | .error _,.error _ => True
  | _,_ => False
instance {α : Type} [DecidableEq α] (a b : Except Invalid α) : Decidable (Same a b) := by
  unfold Same
  rcases a <;> rcases b <;> infer_instance

def Unambiguous (params : Params) : Prop :=
  (∃ e ∈ params.entries, paramOf e.1 = none) ∨
    ∀ e ∈ params.entries, ∀ e' ∈ params.entries, toLower e.1 = toLower e'.1 → e.2 = e'.2
instance (params) : Decidable (Unambiguous params) := by unfold Unambiguous; infer_instance

theorem getSet (f : Values) (v : Bytes) (p : Param) : (f.set v p).get = Function.update f.get p v := by
  funext q
  cases p <;> cases q <;> rfl

def Param.name : Param → Bytes
  | .server => paramServer
  | .share => paramShare
  | .type => paramType

theorem paramNamed (k : Bytes) (p : Param) : paramOf k = some p ↔ toLower k = p.name := by
  unfold paramOf
  constructor
  · intro known
    split_ifs at known with server share type <;> cases known <;> assumption
  · intro named
    rw [named]
    cases p <;> rfl

def settings (order : List (Bytes × Bytes)) : List (Param × Bytes) :=
  order.filterMap fun e => (paramOf e.1).map fun p => (p,e.2)

theorem settingIn (order : List (Bytes × Bytes)) (p : Param) (v : Bytes) :
    (p,v) ∈ settings order ↔ ∃ e ∈ order, paramOf e.1 = some p ∧ e.2 = v := by
  simp [settings]

theorem readRejects {order : List (Bytes × Bytes)} (f : Values) (bad : ∃ e ∈ order, paramOf e.1 = none) :
    ∃ err, readParams f order = .error err := by
  induction order generalizing f with
  | nil => simp at bad
  | cons e rest ih =>
    obtain ⟨k,v⟩ := e
    unfold readParams
    cases known : paramOf k with
    | none => exact ⟨_,rfl⟩
    | some p =>
      obtain ⟨e,mem,none⟩ := bad
      refine ih _ ⟨e,(List.mem_cons.mp mem).resolve_left ?_,none⟩
      rintro rfl
      cases known.symm.trans none

theorem readAccepts {order : List (Bytes × Bytes)} (f : Values) (good : ∀ e ∈ order, paramOf e.1 ≠ none) :
    ∃ g, readParams f order = .ok g ∧ g.get = write f.get (settings order) := by
  induction order generalizing f with
  | nil => exact ⟨f,rfl,rfl⟩
  | cons e rest ih =>
    obtain ⟨k,v⟩ := e
    obtain ⟨p,known⟩ := Option.ne_none_iff_exists'.mp (good (k,v) List.mem_cons_self)
    obtain ⟨g,ok,values⟩ := ih (f.set v p) fun e mem => good e (List.mem_cons_of_mem (k,v) mem)
    have next : settings ((k,v)::rest) = (p,v)::settings rest := by simp [settings,known]
    refine ⟨g,by rw [readParams,known]; exact ok,?_⟩
    rw [values,getSet,next,writeCons]

def Values.volume (f : Values) (name : Bytes) (size : Int) : F3Volume :=
  ⟨name,f.server,f.baseDir,name,size,f.mountType⟩

theorem volumeInjective {name : Bytes} {size : Int} {f g : Values} (same : f.volume name size = g.volume name size) :
    f = g := by
  cases f
  cases g
  simpa [Values.volume] using same

theorem valuesExt {f g : Values} (each : f.get = g.get) : f = g := by
  have server := congrFun each .server
  have share := congrFun each .share
  have type := congrFun each .type
  cases f
  cases g
  simp_all [Values.get]

theorem volumeAccepts (name : Bytes) (size : Int) {order : List (Bytes × Bytes)}
    (good : ∀ e ∈ order, paramOf e.1 ≠ none) :
    ∃ g : Values, newF3Volume name size order = .ok (g.volume name size) ∧
      g.get = write (Values.get {}) (settings order) := by
  obtain ⟨g,ok,values⟩ := readAccepts {} good
  exact ⟨g,by rw [newF3Volume,ok]; rfl,values⟩

theorem volumeRejects (name : Bytes) (size : Int) {order : List (Bytes × Bytes)}
    (bad : ∃ e ∈ order, paramOf e.1 = none) : ∃ err, newF3Volume name size order = .error err := by
  obtain ⟨err,rejected⟩ := readRejects {} bad
  exact ⟨err,by rw [newF3Volume,rejected]; rfl⟩

theorem settingsSame {order order' : List (Bytes × Bytes)} (perm : order.Perm order') (f : Param → Bytes)
    (one : ∀ e ∈ order, ∀ e' ∈ order, toLower e.1 = toLower e'.1 → e.2 = e'.2) :
    write f (settings order) = write f (settings order') := by
  have settled : (settings order).Perm (settings order') := perm.filterMap _
  funext p
  by_cases set : p ∈ (settings order).map Prod.fst
  · obtain ⟨v,mem,last⟩ := written set
    obtain ⟨v',mem',last'⟩ := written ((settled.map Prod.fst).mem_iff.mp set)
    obtain ⟨e,here,known,rfl⟩ := (settingIn order p v).mp mem
    obtain ⟨e',here',known',rfl⟩ := (settingIn order p v').mp (settled.mem_iff.mpr mem')
    rw [last,last']
    exact one e here e' here' (((paramNamed _ p).mp known).trans ((paramNamed _ p).mp known').symm)
  · rw [unwritten f set,unwritten f fun there => set ((settled.map Prod.fst).mem_iff.mpr there)]

theorem unambiguousSame {params : Params} (clear : Unambiguous params) (name : Bytes) (size : Int)
    {order order' : List (Bytes × Bytes)} (first : params.Order order) (second : params.Order order') :
    Same (newF3Volume name size order) (newF3Volume name size order') := by
  by_cases bad : ∃ e ∈ params.entries, paramOf e.1 = none
  · have here : ∃ e ∈ order, paramOf e.1 = none := by simpa [first.mem_iff] using bad
    have there : ∃ e ∈ order', paramOf e.1 = none := by simpa [second.mem_iff] using bad
    obtain ⟨err,rejected⟩ := volumeRejects name size here
    obtain ⟨err',rejected'⟩ := volumeRejects name size there
    rw [rejected,rejected']
    trivial
  · have good : ∀ e ∈ params.entries, paramOf e.1 ≠ none := fun e mem none => bad ⟨e,mem,none⟩
    obtain ⟨g,ok,values⟩ := volumeAccepts name size fun e mem => good e (first.mem_iff.mp mem)
    obtain ⟨g',ok',values'⟩ := volumeAccepts name size fun e mem => good e (second.mem_iff.mp mem)
    have one := clear.resolve_left bad
    have equal : g = g' := by
      refine valuesExt (values.trans (Eq.trans ?_ values'.symm))
      refine settingsSame (first.trans second.symm) _ fun e mem e' mem' => ?_
      exact one e (first.mem_iff.mp mem) e' (first.mem_iff.mp mem')
    rw [ok,ok',equal]
    rfl

def Params.endingIn (params : Params) (e : Bytes × Bytes) : List (Bytes × Bytes) := params.entries.erase e ++ [e]

theorem endingOrder {params : Params} {e : Bytes × Bytes} (mem : e ∈ params.entries) : params.Order (params.endingIn e) :=
  (List.perm_append_singleton e _).trans (List.perm_cons_erase mem).symm

theorem endingValue (params : Params) {e : Bytes × Bytes} {p : Param} (known : paramOf e.1 = some p) (f : Param → Bytes) :
    write f (settings (params.endingIn e)) p = e.2 := by
  simp [settings,Params.endingIn,known,writeLast]

theorem sameUnambiguous {params : Params} {name : Bytes} {size : Int} (same : ∀ order order', params.Order order →
    params.Order order' → Same (newF3Volume name size order) (newF3Volume name size order')) : Unambiguous params := by
  by_cases bad : ∃ e ∈ params.entries, paramOf e.1 = none
  · exact .inl bad
  refine .inr fun e mem e' mem' case => ?_
  have good : ∀ e ∈ params.entries, paramOf e.1 ≠ none := fun e mem none => bad ⟨e,mem,none⟩
  -- The two orders that end in e and in e' set the parameter to their values.
  obtain ⟨g,ok,values⟩ := volumeAccepts name size fun x here => good x ((endingOrder mem).mem_iff.mp here)
  obtain ⟨g',ok',values'⟩ := volumeAccepts name size fun x here => good x ((endingOrder mem').mem_iff.mp here)
  have volumes := same _ _ (endingOrder mem) (endingOrder mem')
  rw [ok,ok'] at volumes
  have equal : g = g' := volumeInjective volumes
  obtain ⟨p,known⟩ := Option.ne_none_iff_exists'.mp (good e mem)
  have known' : paramOf e'.1 = some p := (paramNamed _ p).mpr (case ▸ (paramNamed _ p).mp known)
  calc e.2 = g.get p := by rw [values,endingValue params known]
    _ = g'.get p := by rw [equal]
    _ = e'.2 := by rw [values',endingValue params known']

theorem sameBind {α β : Type} {a b : Except Invalid α} (f : α → β) (same : Same a b) :
    Same (do pure (f (← a))) (do pure (f (← b))) := by
  cases a with
  | error => cases b with
    | error => trivial
    | ok => exact same.elim
  | ok => cases b with
    | error => exact same.elim
    | ok => exact congrArg f same

theorem createSame (cap : Int → Bool) (req : Request) {order order' : List (Bytes × Bytes)}
    (same : Same (newF3Volume req.name req.requiredBytes order) (newF3Volume req.name req.requiredBytes order')) :
    Same (createVolume cap req order) (createVolume cap req order') := by
  unfold createVolume
  by_cases empty : req.name = []
  · rw [if_pos empty,if_pos empty]
    trivial
  · rw [if_neg empty,if_neg empty]
    cases validateVolumeCapabilities cap req.capabilities with
    | error => trivial
    | ok => exact sameBind _ same

theorem orderFree (name : Bytes) (size : Int) (params : Params) :
    ((∀ order order', params.Order order → params.Order order' →
        Same (newF3Volume name size order) (newF3Volume name size order')) ↔ Unambiguous params) ∧
      (Unambiguous params → ∀ cap capabilities order order', params.Order order → params.Order order' →
        Same (createVolume cap ⟨name,capabilities,size,params⟩ order)
          (createVolume cap ⟨name,capabilities,size,params⟩ order')) := by
  refine ⟨⟨sameUnambiguous,fun clear order order' => unambiguousSame clear name size⟩,?_⟩
  intro clear cap capabilities order order' first second
  exact createSame cap _ (unambiguousSame clear name size first second)

-- {"server": "a", "Server": "a"}
def oneServer : Params := ⟨[(paramServer,[97]),([83,101,114,118,101,114],[97])],by decide⟩

theorem oneServerFree : Unambiguous oneServer ∧
    Same (createVolume (fun _ => true) ⟨[118],[some ⟨some 1,true⟩],1,oneServer⟩ oneServer.entries)
      (createVolume (fun _ => true) ⟨[118],[some ⟨some 1,true⟩],1,oneServer⟩ oneServer.entries.reverse) :=
  ⟨by decide,(orderFree [118] 1 oneServer).2 (by decide) _ _ _ _ (List.Perm.refl _) (List.reverse_perm _)⟩

-- {"server": "a", "Server": "b"}
def twoServers : Params := ⟨[(paramServer,[97]),([83,101,114,118,101,114],[98])],by decide⟩

theorem serverByOrder : ∃ order order', twoServers.Order order ∧ twoServers.Order order' ∧
    ¬Same (newF3Volume [118] 1 order) (newF3Volume [118] 1 order') ∧
    createVolume (fun _ => true) ⟨[118],[some ⟨some 1,true⟩],1,twoServers⟩ order =
      .ok ⟨1,[118],⟨[98],[47,118],[]⟩⟩ ∧
    createVolume (fun _ => true) ⟨[118],[some ⟨some 1,true⟩],1,twoServers⟩ order' =
      .ok ⟨1,[118],⟨[97],[47,118],[]⟩⟩ :=
  ⟨twoServers.entries,twoServers.entries.reverse,List.Perm.refl _,List.reverse_perm _,
    by decide,by decide,by decide⟩

end F3.Csi.Controller
