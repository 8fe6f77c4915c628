import F3.DriverAttrs
import F3.DriverCluster
import Mathlib.Data.List.Count
import Mathlib.Data.List.Perm.Basic

/-! The attributes of the two copies over whole runs of several nodes: as long as every step
changes both copies alike, both copies of every inode of every node carry the same ones. -/
namespace F3.Driver.Attrs
open Lib (Bytes Arena Cell Prog Act)
open Lib.Posix
open Lib.Run (run Meets)
open Fds Owners Copies
open Choice (Cluster Event clusterStep sourceTree)

/- A request that leaves the two copies of every inode with the same attributes; `others` are
the numbers that the other nodes have open. -/
def Uniform (others : List Ino) (d : State) (e : Env Call) : Req → Prop
  | .lookup parent name => ∀ dir ∈ d.inode parent, LookAlike d dir name
  | .mknod parent name kind _ => ∀ dir ∈ d.inode parent, MknodAlike d dir name e kind
  | .create parent name _ => ∀ dir ∈ d.inode parent, CreateAlike d dir name e
  | .unlink parent name => d.conf.cached = true ∨ ∀ dir ∈ d.inode parent, LookAlike d dir name
  | .readdirplus ino stream => ∀ dir ∈ d.inode ino, ∀ x ∈ stream, LookAlike d dir x.name
  | .release ino fh => mayWrite (d.mount fh.side) fh.fd = true → ∀ i ∈ d.inode ino, Told d i
  | .setxattr ino _ _ _ => (e.fault (.setxattr .fs) = none ↔ e.fault (.setxattr .id) = none) ∧
      ∀ i ∈ d.inode ino, Alone others d i
  | .removexattr ino _ => (e.fault (.removexattr .fs) = none ↔ e.fault (.removexattr .id) = none) ∧
      ∀ i ∈ d.inode ino, Alone others d i
  | _ => True

section Node
variable {others : List Ino} {d d' : State} {e : Env Call}

theorem handleSpares {req : Req} (fresh : d.replies = []) (twins : Twins others d)
    (uniform : Uniform others d e req) (ok : handle req e d = some ((),d')) : Spares others d d' := by
  cases req with
  | lookup parent name => exact sfsLookupSpares twins uniform ok
  | mknod parent name kind link => exact mknodSpares twins uniform ok
  | link ino parent name => exact keptSpares (keptNames.link ino parent name) (Durable.bothNames.link ino parent name) twins ok
  | create parent name flags => exact createSpares twins uniform ok
  | rmdir parent name => exact keptSpares (keptNames.rmdir parent name) (Durable.bothNames.rmdir parent name) twins ok
  | rename parent name newparent newname flags =>
    exact keptSpares (keptNames.rename parent name newparent newname flags)
      (Durable.bothNames.rename parent name newparent newname flags) twins ok
  | unlink parent name => exact unlinkSpares twins uniform ok
  | forget ino n => exact forgetSpares twins ok
  | forgetMulti forgets => exact forgetMultiSpares twins ok
  | readdirplus ino stream =>
    obtain ⟨_,_,got,loop⟩ := Prog.bindSome ok
    cases (getInodeSome got).1
    exact readdirSpares twins uniform loop
  | openFile ino flags =>
    exact steadySpares twins (openSlots fresh ok) (Durable.openBoth ino flags e d _ d' ok)
  | release ino fh => exact sizeSpares twins uniform ok
  | writeBuf ino fh off data =>
    exact keptSpares (keptNames.write ino fh off data) (Durable.bothNames.write ino fh off data) twins ok
  | getattr ino => exact keptSpares (keptNames.getattr ino) (Durable.bothNames.getattr ino) twins ok
  | setattr ino size fi => exact keptSpares (keptNames.setattr ino size fi) (Durable.bothNames.setattr ino size fi) twins ok
  | setxattr ino name value flag => exact setxattrSpares twins uniform.1 uniform.2 ok
  | removexattr ino name => exact removexattrSpares twins uniform.1 uniform.2 ok

abbrev rootAttrs (v : Volume Call) : Bytes → Option Bytes := (v.nodes v.tree.root.ino).xattr

theorem bootBooks {v : Volume Call} (counted : ∀ ino, others.count ino ≤ v.busy.count ino) :
    Books others (bootMount v) := by
  refine booksInstall (m := ⟨v,[],0,by simp,[]⟩) (fun ino => ?_) _
  simpa [inos] using counted ino

theorem bootTwins {opts : Options} {fs id : Volume Call} (counted : ∀ ino, others.count ino ≤ fs.busy.count ino)
    (same : rootAttrs fs = rootAttrs id) : Twins others (boot opts fs id) := by
  refine ⟨bootBooks counted,bootBooks (by simp),fun i mem => ?_,?_⟩
  · cases List.mem_singleton.mp mem
    exact ⟨fun n isFd => by cases isFd; exact Nat.zero_lt_one,fun n isFd => by cases isFd; exact Nat.zero_lt_one⟩
  · rintro f g ⟨i,mem,file,copy⟩
    cases List.mem_singleton.mp mem
    cases Option.some.inj file
    cases Option.some.inj copy
    exact same

theorem exitBooks {m : Mount Call} (books : Books others m) (ino : Ino) :
    others.count ino ≤ (Mount.exit m).busy.count ino := by
  have rest : (Mount.exit m).busy = m.vol.busy.diff (inos m) := by
    rw [List.diff_eq_foldl,inos,List.foldl_map]
    rfl
  have all := books ino
  rw [rest,List.count_diff]
  omega

def UniformStep (others : List Ino) (d : State) : Step → Prop
  | .request req e => Faithful d req ∧ Uniform others d e req
  | .restart => rootAttrs d.fs.vol = rootAttrs d.id.vol

theorem stepSpares {s : Step} (twins : Twins others d) (uniform : UniformStep others d s)
    (ok : step d s = some d') : Spares others d d' := by
  cases s with
  | request req e =>
    obtain ⟨⟨_,t⟩,ran,rfl⟩ := Option.map_eq_some_iff.mp ok
    have first := repliesSpares twins []
    refine first.trans (handleSpares rfl first.twins ?_ ran)
    cases req <;> exact uniform.2
  | restart =>
    cases Option.some.inj ok
    obtain ⟨books,idBooks,dated,alike⟩ := @bootTwins others ⟨d.conf.idroot,d.conf.address,d.conf.cached⟩
      (Mount.exit d.fs) (Mount.exit d.id) (exitBooks twins.books) uniform
    exact ⟨⟨books,idBooks,dated,alike⟩,fun _ _ => rfl⟩

end Node

def numbers (nodes : List State) : List Ino := nodes.flatMap fun d => inos d.fs

def UniformOn (c : Cluster) : Event → Prop
  | .join _ id => rootAttrs c.shared = rootAttrs id
  | .on i s => ∀ d ∈ c.nodes[i]?, UniformStep (numbers (c.nodes.eraseIdx i)) (c.view d) s

structure Matched (c : Cluster) : Prop where
  books : ∀ ino, (numbers c.nodes).count ino ≤ c.shared.busy.count ino
  each : ∀ d ∈ c.nodes, Books [] d.id ∧ Dated d ∧
    ∀ f g, Paired d f g → (c.shared.nodes f.entry.ino).xattr = attrs d.id g.entry.ino

section Cluster
variable {c c' : Cluster} {i : Nat} {d d' : State}

theorem matchedTwins (matched : Matched c) (node : c.nodes[i]? = some d) :
    Twins (numbers (c.nodes.eraseIdx i)) (c.view d) := by
  obtain ⟨bound,rfl⟩ := List.getElem?_eq_some_iff.mp node
  obtain ⟨idBooks,dated,alike⟩ := matched.each _ (List.getElem_mem bound)
  refine ⟨fun ino => ?_,idBooks,dated,alike⟩
  have all := matched.books ino
  have apart := ((List.getElem_cons_eraseIdx_perm bound).flatMap_right fun u => inos u.fs).count_eq ino
  rw [List.flatMap_cons,List.count_append] at apart
  rw [numbers,← apart,Nat.add_comm] at all
  exact all

theorem sparesMatched (matched : Matched c) (node : c.nodes[i]? = some d)
    (spares : Spares (numbers (c.nodes.eraseIdx i)) (c.view d) d') : Matched ⟨d'.fs.vol,c.nodes.set i d'⟩ := by
  obtain ⟨bound,_⟩ := List.getElem?_eq_some_iff.mp node
  have apart := List.set_perm_cons_eraseIdx bound d'
  refine ⟨fun ino => ?_,fun u mem => ?_⟩
  · have all := spares.twins.books ino
    rw [numbers,(apart.flatMap_right fun u => inos u.fs).count_eq,List.flatMap_cons,List.count_append,Nat.add_comm]
    exact all
  · rcases List.mem_cons.mp (apart.mem_iff.mp mem) with rfl | other
    · exact ⟨spares.twins.idBooks,spares.twins.dated,spares.twins.alike⟩
    · obtain ⟨idBooks,dated,alike⟩ := matched.each u (List.mem_of_mem_eraseIdx other)
      refine ⟨idBooks,dated,fun f g paired => ?_⟩
      have ⟨x,_,file,_⟩ := paired
      obtain ⟨n,isFd⟩ := fdOfFile file
      rw [isFd] at file
      have theirs : f.entry.ino ∈ numbers (c.nodes.eraseIdx i) :=
        List.mem_flatMap.mpr ⟨u,other,List.mem_map.mpr ⟨(n,f),fileOpened file,rfl⟩⟩
      exact (spares.theirs _ theirs).trans (alike f g paired)

theorem eventMatched {event : Event} (matched : Matched c) (uniform : UniformOn c event)
    (ok : clusterStep c event = some c') : Matched c' := by
  cases event with
  | join opts id =>
    cases Option.some.inj ok
    have fresh : Twins (numbers c.nodes) (boot opts c.shared id) := bootTwins matched.books uniform
    refine ⟨fun ino => ?_,fun u mem => ?_⟩
    · have all := fresh.books ino
      rw [numbers,List.flatMap_append,List.count_append,List.flatMap_singleton]
      exact all
    · rcases List.mem_append.mp mem with old | new
      · exact matched.each u old
      · cases List.mem_singleton.mp new
        exact ⟨fresh.idBooks,fresh.dated,fresh.alike⟩
  | on i s =>
    obtain ⟨d,node,rest⟩ := Option.bind_eq_some_iff.mp ok
    obtain ⟨d',done,last⟩ := Option.bind_eq_some_iff.mp rest
    cases Option.some.inj last
    exact sparesMatched matched node (stepSpares (matchedTwins matched node) (uniform d node) done)

end Cluster

theorem copiesCarrySame {fs : Volume Call} {events : List Event} {c : Cluster}
    (meets : Meets clusterStep UniformOn ⟨fs,[]⟩ events) (ok : run clusterStep ⟨fs,[]⟩ events = some c) :
    ∀ d ∈ c.nodes, ∀ x ∈ inodes d, ∀ f ∈ d.fs.file x.fd, ∀ g ∈ d.id.file x.idFd, ∀ attr,
      (c.shared.nodes f.entry.ino).xattr attr = (d.id.vol.nodes g.entry.ino).xattr attr := by
  have start : Matched ⟨fs,[]⟩ := ⟨fun ino => by simp [numbers],fun d mem => by cases mem⟩
  have matched := Lib.Run.invariant UniformOn Matched eventMatched start meets ok
  intro d mem x here f file g copy attr
  exact congrFun ((matched.each d mem).2.2 f g ⟨x,here,file,copy⟩) attr

def twoNodes : List Event :=
  [.join ⟨[47,105],[49],true⟩ (emptyVolume 7 ⟨[105],okI⟩),
   .join ⟨[47,105],[50],true⟩ (emptyVolume 8 ⟨[105],okI⟩)]

def idCreated : Event := .on 0 (.request (.create .root nameId forWriting) (calm 10))

theorem idCreatedSame : ∃ c d x f g, run clusterStep ⟨sourceTree,[]⟩ (twoNodes ++ [idCreated]) = some c ∧
    d ∈ c.nodes ∧ x ∈ inodes d ∧ f ∈ d.fs.file x.fd ∧ g ∈ d.id.file x.idFd ∧
    (c.shared.nodes f.entry.ino).xattr f3Id = some trueText ∧
    ∀ attr, (c.shared.nodes f.entry.ino).xattr attr = (d.id.vol.nodes g.entry.ino).xattr attr := by
  have ends : (run clusterStep ⟨sourceTree,[]⟩ (twoNodes ++ [idCreated])).any (fun c => c.nodes.any fun d =>
      (inodes d).any fun x => (d.fs.file x.fd).any fun f => (d.id.file x.idFd).any fun _ =>
        (c.shared.nodes f.entry.ino).xattr f3Id = some trueText) = true := by decide +kernel
  simp only [Option.any_eq_true,List.any_eq_true,decide_eq_true_eq] at ends
  obtain ⟨c,ok,d,mem,x,here,f,file,g,copy,mark⟩ := ends
  have meets : Meets clusterStep UniformOn ⟨sourceTree,[]⟩ (twoNodes ++ [idCreated]) := by
    refine ⟨rfl,rfl,fun d node => ⟨?_,fun dir known => ?_⟩,?_⟩
    · cases Option.some.inj node
      decide +kernel
    · cases Option.some.inj node
      cases Option.some.inj known
      rw [CreateAlike,if_pos (by decide +kernel)]
      exact ⟨⟨by decide +kernel,by decide +kernel⟩,fun _ _ => rfl,by decide +kernel⟩
    · split <;> trivial
  exact ⟨c,d,x,f,g,ok,mem,here,file,copy,mark,copiesCarrySame meets ok d mem x here f file g copy⟩

def writtenReleased : List Event := twoNodes ++
  [.on 0 (.request (.create .root nameB forWriting) (calm 10)),
   .on 0 (.request (.writeBuf (.node 0) ⟨.fs,.fd 1⟩ 0 [120]) (calm 11)),
   .on 0 (.request (.release (.node 0) ⟨.fs,.fd 1⟩) (calm 11))]

theorem sizeOnSourceOnly : ∃ c ∈ run clusterStep ⟨sourceTree,[]⟩ writtenReleased, ∃ d ∈ c.nodes,
    ∃ x ∈ inodes d, ∃ f ∈ d.fs.file x.fd, ∃ g ∈ d.id.file x.idFd,
      (c.shared.nodes f.entry.ino).xattr f3Size = some (digits 0) ∧
      (d.id.vol.nodes g.entry.ino).xattr f3Size = none := by
  have ends : (run clusterStep ⟨sourceTree,[]⟩ writtenReleased).any (fun c => c.nodes.any fun d =>
      (inodes d).any fun x => (d.fs.file x.fd).any fun f => (d.id.file x.idFd).any fun g =>
        (c.shared.nodes f.entry.ino).xattr f3Size = some (digits 0) ∧
          (d.id.vol.nodes g.entry.ino).xattr f3Size = none) = true := by decide +kernel
  simp only [Option.any_eq_true,List.any_eq_true,decide_eq_true_eq] at ends
  obtain ⟨c,ok,d,mem,x,here,f,file,g,copy,apart⟩ := ends
  exact ⟨c,ok,d,mem,x,here,f,file,g,copy,apart⟩

end F3.Driver.Attrs
