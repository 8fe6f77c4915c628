import F3.DriverCluster
import F3.DriverReplies
import F3.DriverFound

/-! What a directory shows: opendir lists the copy that INODE() picks, do_lookup finds its
names in the FS tree. -/
namespace F3.Driver.Listing
open Lib (Bytes Arena Cell Prog)
open Lib.Posix
open Service (Dirent Desk DirHandle Outside)

def listing (m : Mount Call) (fd : Slot) : List (FileName × Entry) := match m.dirAt fd with
  | .ok (_,p) => m.vol.tree.children p
  | .error _ => []

def stream (e : Env Call) (m : Mount Call) (fd : Slot) : List Dirent :=
  .dots :: .dots :: (listing m fd).map (fun x => .entry ⟨x.1,true,e⟩ x.2.ino x.2.kind)

def opendir (out : Outside) (d : State) (ino : Ref) : Option (DirHandle × State) := do
  let (_,after) ← Service.sfsOpendir ino out (Service.opened d)
  match after.answers with
  | [.opendir dh] => some (dh,after.driver)
  | _ => none

def readdir (out : Outside) (d : State) (ino : Ref) (dh : DirHandle) : Option (List FileName) := do
  let (_,after) ← Service.sfsReaddir ino (stream out.calls (d.mount dh.side) dh.fd) out (Service.opened d)
  match after.driver.replies with
  | [.entries es] => some (es.map Prod.fst)
  | _ => none

def listed (out : Outside) (d : State) (ino : Ref) : Option (List FileName) := do
  let (dh,after) ← opendir out d ino
  readdir out after ino dh

def Found (e : Env Call) (d : State) (ino : Ref) (name : FileName) : Prop :=
  ∃ x t, doLookup ino name e d = some (.ok x,t)

instance (e d ino name) : Decidable (Found e d ino name) :=
  match ran : doLookup ino name e d with
  | some (.ok x,t) => isTrue ⟨x,t,ran⟩
  | some (.error _,_) => isFalse (by rintro ⟨x,t,ok⟩; rw [ran] at ok; cases ok)
  | none => isFalse (by rintro ⟨x,t,ok⟩; rw [ran] at ok; cases ok)

def Unfailing (out : Outside) : Prop :=
  out.fault .newHandle = none ∧ out.fault .openDir = none ∧ out.fault .fdopendir = none ∧
    out.fault .newBuffer = none ∧ out.fault .readdir = none

theorem memListing {m : Mount Call} {fd name entry} : (name,entry) ∈ listing m fd ↔
    ∃ up p, m.dirAt fd = .ok (up,p) ∧ m.vol.tree.find (p ++ [name]) = some entry := by
  unfold listing
  cases at_ : m.dirAt fd with
  | error err => simp
  | ok place =>
    obtain ⟨up,p⟩ := place
    simp [Lib.Tree.childrenMem]

def shown (x : FileName × Entry) : FileName × EntryParam := (x.1,⟨none,0,⟨x.2.ino,0,x.2.kind,0,0⟩⟩)

theorem attempted {out : Outside} {s : Service.Site} (k : Desk) (quiet : out.fault s = none) :
    Service.attempt s out k = some (.ok (),k) := by
  simp [Service.attempt,Service.call,quiet,State.mount,State.setMount]

theorem loopReplies {ino : Ref} {out : Outside} {k : Desk} (quiet : out.fault .readdir = none)
    (entries : List (FileName × Entry)) (sofar : List (FileName × EntryParam)) :
    Service.readdirLoop ino false
      (entries.map (fun x => .entry ⟨x.1,true,out.calls⟩ x.2.ino x.2.kind)) sofar out k =
      some ((),{k with driver := {k.driver with
        replies := k.driver.replies ++ [.entries (sofar.reverse ++ entries.map shown)]}}) := by
  induction entries generalizing sofar with
  | nil =>
    simp only [List.map_nil,Service.readdirLoop]
    rw [Prog.bindEq (attempted k quiet)]
    simp [Service.core,Service.replyCollected,reply,Prog.modify]
  | cons x rest ih =>
    simp only [List.map_cons,Service.readdirLoop,Bool.false_eq_true,if_false,if_true]
    rw [ih]
    simp [shown]

theorem openedInode {out : Outside} {d : State} {ino : Ref} {dir} (known : d.inode ino = some dir)
    (filled : ino ≠ .root → dir.fd ≠ .closed) :
    Service.core (getInode ino) out (Service.opened d) = some (dir,Service.opened d) := by
  have here : ({d with replies := []} : State).inode ino = some dir := by cases ino <;> exact known
  simp [Service.core,Service.opened,getInodeEq out.calls here filled]

theorem readdirReads {out : Outside} {d : State} {ino : Ref} {dir} (dh : DirHandle) (quiet : Unfailing out)
    (known : d.inode ino = some dir) (filled : ino ≠ .root → dir.fd ≠ .closed) :
    readdir out d ino dh = some ((listing (d.mount dh.side) dh.fd).map Prod.fst) := by
  have runs : Service.sfsReaddir ino (stream out.calls (d.mount dh.side) dh.fd) out (Service.opened d) =
      some ((),{Service.opened d with driver := {d with
        replies := [.entries ((listing (d.mount dh.side) dh.fd).map shown)]}}) := by
    unfold Service.sfsReaddir Service.doReaddir stream
    rw [Prog.bindEq (openedInode known filled),Prog.bindEq (attempted _ quiet.2.2.2.1)]
    simp only [Service.readdirLoop]
    rw [loopReplies quiet.2.2.2.2]
    simp [Service.opened]
  simp [readdir,runs,shown,Function.comp_def]

theorem opendirOpens {out : Outside} {d : State} {ino : Ref} {dir} (quiet : Unfailing out)
    (known : d.inode ino = some dir) (filled : ino ≠ .root → dir.fd ≠ .closed) :
    opendir out d ino = match (d.mount dir.side).openDot dir.slot with
      | .ok (fd,m) => some (⟨dir.side,fd,0⟩,{d with replies := []}.setMount dir.side m)
      | .error _ => none := by
  obtain ⟨newHandle,openDir,fdopendir,_⟩ := quiet
  have same : ({d with replies := []} : State).mount dir.side = d.mount dir.side := by
    cases dir.side <;> rfl
  unfold opendir Service.sfsOpendir
  rw [Prog.bindEq (openedInode known filled),Prog.bindEq (attempted _ newHandle)]
  simp only
  cases opens : (d.mount dir.side).openDot dir.slot with
  | error err =>
    have call : Service.call .openDir dir.side (fun m => m.openDot dir.slot) out (Service.opened d) =
        some (.error err,Service.opened d) := by
      simp [Service.call,Service.opened,openDir,same,opens]
    have calls : andThen (Service.call .openDir dir.side (fun m => m.openDot dir.slot)) (fun fd =>
        andThen (Service.attempt .fdopendir) fun _ => pure (.ok fd)) out (Service.opened d) =
        some (.error err,Service.opened d) := Prog.bindEq call
    rw [Prog.bindEq calls]
    rfl
  | ok r =>
    obtain ⟨fd,m⟩ := r
    have call : Service.call .openDir dir.side (fun m => m.openDot dir.slot) out (Service.opened d) =
        some (.ok fd,{Service.opened d with driver := {d with replies := []}.setMount dir.side m}) := by
      simp [Service.call,Service.opened,openDir,same,opens]
    have calls : andThen (Service.call .openDir dir.side (fun m => m.openDot dir.slot)) (fun fd =>
        andThen (Service.attempt .fdopendir) fun _ => pure (.ok fd)) out (Service.opened d) =
        some (.ok fd,{Service.opened d with driver := {d with replies := []}.setMount dir.side m}) :=
      (Prog.bindEq call).trans (Prog.bindEq (attempted _ fdopendir))
    rw [Prog.bindEq calls]
    rfl

theorem dotListing {m m' : Mount Call} {slot fd : Slot} (opens : m.openDot slot = .ok (fd,m')) :
    listing m' fd = listing m slot := by
  unfold Mount.openDot at opens
  split at opens <;> try contradiction
  rename_i f file
  split at opens <;> try contradiction
  rename_i isDir
  cases opens
  have now : (m.install ⟨f.entry,f.dentry,.read⟩).file (.fd m.next) = some ⟨f.entry,f.dentry,.read⟩ :=
    fileInstall m _
  have same : (m.install ⟨f.entry,f.dentry,.read⟩).dirAt (.fd m.next) = m.dirAt slot := by
    simp only [Mount.dirAt,now,file,isDir]
    rfl
  unfold listing
  rw [same]
  rfl

theorem shutListing {m : Mount Call} {slot : Slot} {err} (shut : m.openDot slot = .error err) :
    listing m slot = [] := by
  unfold Mount.openDot at shut
  split at shut
  · rename_i none
    simp [listing,Mount.dirAt,none]
  · rename_i f file
    split at shut <;> try contradiction
    rename_i plain
    simp [listing,Mount.dirAt,file,plain]

def Returned (out : Outside) (d : State) (ino : Ref) (name : FileName) : Prop :=
  ∃ names ∈ listed out d ino, name ∈ names
instance (out d ino name) : Decidable (Returned out d ino name) := by unfold Returned; infer_instance

theorem returnedIff {out : Outside} {d : State} {ino : Ref} {dir} {name : FileName} (quiet : Unfailing out)
    (known : d.inode ino = some dir) (filled : ino ≠ .root → dir.fd ≠ .closed) :
    Returned out d ino name ↔ ∃ entry, (name,entry) ∈ listing (d.mount dir.side) dir.slot := by
  unfold Returned listed
  rw [opendirOpens quiet known filled]
  cases opens : (d.mount dir.side).openDot dir.slot with
  | error err => simp [shutListing opens]
  | ok r =>
    obtain ⟨fd,m⟩ := r
    have still : ({d with replies := []}.setMount dir.side m).inode ino = some dir := by
      cases dir.side <;> cases ino <;> exact known
    have names := readdirReads ⟨dir.side,fd,0⟩ quiet still filled
    simp [names,dotListing opens]

theorem listingFound {m : Mount Call} {fd : Slot} {name : FileName} :
    (∃ entry, (name,entry) ∈ listing m fd) ↔ foundAt m fd name ≠ none := by
  unfold foundAt
  simp only [memListing]
  cases m.dirAt fd with
  | error err => simp
  | ok place =>
    obtain ⟨up,p⟩ := place
    simp [Option.ne_none_iff_exists']

theorem listedIffFound {out : Outside} {d : State} {ino : Ref} {dir} {name : FileName} (quiet : Unfailing out)
    (known : getInode ino out.calls d = some (dir,d)) :
    (Returned out d ino name ↔ Found out.calls d ino name) ↔
      (foundAt (d.mount dir.side) dir.slot name ≠ none ↔ Answers out.calls d dir name) := by
  obtain ⟨_,here,filled⟩ := getInodeSome known
  have found : Found out.calls d ino name ↔ Answers out.calls d dir name := lookupExact known
  rw [returnedIff quiet here filled,listingFound,found]

def quietly (ino : Ino) : Outside := ⟨calm ino,fun _ => none,fun _ => 0,[]⟩

def twoNames : List Step :=
  [.request (.create .root nameA forWriting) (calm 10),
   .request (.create .root nameId forWriting) (calm 11)]

theorem rootShowsBoth : ∃ d ∈ Lib.Run.run step (mounted true) twoNames,
    Returned (quietly 12) d .root nameId ∧ Found (calm 12) d .root nameId := by
  have facts : ∃ d ∈ Lib.Run.run step (mounted true) twoNames, Returned (quietly 12) d .root nameId ∧
      (foundAt (d.mount d.root.side) d.root.slot nameId ≠ none ↔ Answers (calm 12) d d.root nameId) := by
    decide +kernel
  obtain ⟨d,ran,returned,answers⟩ := facts
  have quiet : Unfailing (quietly 12) := ⟨rfl,rfl,rfl,rfl,rfl⟩
  have same := (@listedIffFound (quietly 12) d .root d.root nameId quiet rfl).mpr answers
  exact ⟨d,ran,returned,same.mp returned⟩

/- A directory that two nodes have looked up: what the one creates in it, the other finds
there and does not list. -/
def sharedDirectory : List Choice.Event :=
  [.join ⟨[47,105],[49],true⟩ (emptyVolume 7 ⟨[105],okI⟩),
   .join ⟨[47,105],[50],true⟩ (emptyVolume 8 ⟨[105],okI⟩),
   .on 0 (.request (.mknod .root nameId .dir []) (calm 10)),
   .on 1 (.request (.lookup .root nameId) (calm 11)),
   .on 0 (.request (.create (.node 0) nameB forWriting) (calm 12))]

theorem foundNotListed :
    ∃ c ∈ Lib.Run.run Choice.clusterStep ⟨Choice.sourceTree,[]⟩ sharedDirectory, ∃ d ∈ c.nodes[1]?,
      ¬ Returned (quietly 13) (c.view d) (.node 0) nameB ∧ Found (calm 13) (c.view d) (.node 0) nameB := by
  decide +kernel

end F3.Driver.Listing
