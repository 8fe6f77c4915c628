import F3.DriverReplies
import F3.DriverAround
import F3.DriverFound
import F3.DriverConvert

/-! A change of both trees. Each handler makes one call on the shared tree and one on the
ID tree, and what the first reply says is true of both when the two calls agree and
nothing fails behind them. -/
namespace F3.Driver.Trees
open Lib (Bytes Arena Cell Prog Act)
open Lib.Prog (bindSome pureSome bindEq)
open Lib.Posix
open Service (Known Valid beforeUnlink plainRan plainChoose plainMknodId)

structure Same (m m' : Mount Call) : Prop where
  tree : m'.vol.tree = m.vol.tree
  xattr : ∀ ino, (m'.vol.nodes ino).xattr = (m.vol.nodes ino).xattr

theorem alikeSame {m m' : Mount Call} (tree : m'.vol.tree = m.vol.tree)
    (alike : ∀ attr, Alike attr m m') : Same m m' :=
  ⟨tree,fun ino => funext fun attr => (alike attr).xattr ino⟩

theorem quietSame {m m' : Mount Call} (quiet : Quiet m m') : Same m m' :=
  ⟨quiet.tree,fun ino => by rw [quiet.nodes]⟩

def Present (m m' : Mount Call) (dir : Slot) (name : FileName) (kind : Kind) : Prop :=
  ∃ up p entry, m.dirAt dir = .ok (up,p) ∧ m'.vol.tree.find (p ++ [name]) = some entry ∧
    entry.kind = kind

def Gone (m m' : Mount Call) (dir : Slot) (name : FileName) : Prop :=
  ∃ up p, m.dirAt dir = .ok (up,p) ∧ m'.vol.tree.find (p ++ [name]) = none

def Linked (m m' : Mount Call) (slot dir : Slot) (name : FileName) : Prop :=
  ∃ f up p, m.file slot = some f ∧ m.dirAt dir = .ok (up,p) ∧
    m'.vol.tree.find (p ++ [name]) = some f.entry

def Renamed (m m' : Mount Call) (dir : Slot) (name : FileName) (newdir : Slot) (newname : FileName) :
    Prop :=
  ∃ up p up' q v, m.dirAt dir = .ok (up,p) ∧ m.dirAt newdir = .ok (up',q) ∧
    m.vol.rename (p ++ [name]) (q ++ [newname]) = .ok v ∧ m'.vol.tree = v.tree

def AttrIs (m m' : Mount Call) (slot : Slot) (name : Bytes) (value : Option Bytes) : Prop :=
  ∃ f, m.file slot = some f ∧ (m'.vol.nodes f.entry.ino).xattr name = value

/- The requests that change both trees. mknod of a file does not: its copy is made by the
lookup. -/
def TwoTree : Req → Bool
  | .create _ _ _ => true
  | .mknod _ _ kind _ => kind = .dir ∨ kind = .lnk
  | .link _ _ _ => true
  | .rename _ _ _ _ _ => true
  | .unlink _ _ => true
  | .rmdir _ _ => true
  | .setxattr _ _ _ _ => true
  | .removexattr _ _ => true
  | _ => false

def Done (d t : State) : Req → Prop
  | .create parent name _ => ∀ dir, d.inode parent = some dir →
      Present d.fs t.fs dir.fd name .reg ∧ Present d.id t.id dir.idFd name .reg
  | .mknod parent name kind _ => ∀ dir, d.inode parent = some dir →
      Present d.fs t.fs dir.fd name kind ∧ Present d.id t.id dir.idFd name kind
  | .link ino parent name => ∀ i dir, d.inode ino = some i → d.inode parent = some dir →
      Linked d.fs t.fs i.fd dir.fd name ∧ Linked d.id t.id i.idFd dir.idFd name
  | .rename parent name newparent newname _ => ∀ dir ndir, d.inode parent = some dir →
      d.inode newparent = some ndir → Renamed d.fs t.fs dir.fd name ndir.fd newname ∧
        Renamed d.id t.id dir.idFd name ndir.idFd newname
  | .unlink parent name => ∀ dir, d.inode parent = some dir →
      Gone d.fs t.fs dir.fd name ∧ Gone d.id t.id dir.idFd name
  | .rmdir parent name => ∀ dir, d.inode parent = some dir →
      Gone d.fs t.fs dir.fd name ∧ Gone d.id t.id dir.idFd name
  | .setxattr ino name value _ => ∀ i, d.inode ino = some i →
      AttrIs d.fs t.fs i.fd name (some value) ∧ AttrIs d.id t.id i.idFd name (some value)
  | .removexattr ino name => ∀ i, d.inode ino = some i →
      AttrIs d.fs t.fs i.fd name none ∧ AttrIs d.id t.id i.idFd name none
  | _ => False

/- The first reply is the one that the kernel gets. -/
inductive Ended (d : State) (done : State → Prop) (t : State) : Prop where
  | failed {err rest} (first : t.replies = .err (some err) :: rest) (fs : Same d.fs t.fs)
      (id : Same d.id t.id)
  | done {r rest} (first : t.replies = r :: rest) (success : ∀ err, r ≠ .err (some err))
      (made : done t)

/- How a request can end: all its calls succeed, or it replies an error, and then the trees are as they were
only if no call before the error has changed one. -/
inductive Ends (d : State) (done : State → Prop) (works untouched : Prop) (t : State) : Prop where
  | success {r rest} (works : works) (first : t.replies = r :: rest) (success : ∀ err, r ≠ .err (some err))
      (made : done t)
  | failure {err rest} (fails : ¬ works) (first : t.replies = .err (some err) :: rest)
      (same : Same d.fs t.fs ∧ Same d.id t.id ↔ untouched)

theorem endsExact {d t : State} {done works untouched} (ends : Ends d done works untouched t) :
    Ended d done t ↔ works ∨ untouched := by
  cases ends with
  | success works first success made => exact iff_of_true (.done first success made) (.inl works)
  | failure fails first same =>
    constructor
    · intro ended
      cases ended with
      | failed _ fs id => exact .inr (same.mp ⟨fs,id⟩)
      | done other success _ =>
        cases first.symm.trans other
        exact absurd rfl (success _)
    · rintro (works | untouched)
      · exact absurd works fails
      · exact .failed first (same.mpr untouched).1 (same.mpr untouched).2

theorem endsDone {d t : State} {done works untouched r rest} (ends : Ends d done works untouched t)
    (first : t.replies = r :: rest) (success : ∀ err, r ≠ .err (some err)) : done t := by
  cases ends with
  | success _ _ _ made => exact made
  | failure _ other _ =>
    cases first.symm.trans other
    exact absurd rfl (success _)

theorem sameIff {m n n' : Mount Call} (same : Same n n') : Same m n' ↔ Same m n :=
  ⟨fun all => ⟨same.tree.symm.trans all.tree,fun ino => (same.xattr ino).symm.trans (all.xattr ino)⟩,
    fun one => ⟨same.tree.trans one.tree,fun ino => (same.xattr ino).trans (one.xattr ino)⟩⟩

theorem sameSelf (m : Mount Call) : Same m m := ⟨rfl,fun _ => rfl⟩

section Pairs
variable {e : Env Call} {d : State}

def firstError : Except Errno Unit → List Reply
  | .ok _ => []
  | .error err => [.err (some err)]

theorem bothRun (fsCall idCall : Sys Call (Except Errno Unit))
    (last : Except Errno Unit → Handler Unit) (e : Env Call) (d : State) :
    (do
      let first ← sys .fs fsCall
      replyFirst first
      let second ← sys .id idCall
      last second) e d = last (idCall e d.id).1 e {d with
        fs := (fsCall e d.fs).2, id := (idCall e d.id).2,
        replies := d.replies ++ firstError (fsCall e d.fs).1} := by
  simp only [bind,sys,Prog.zoom,State.mount,State.setMount]
  cases (fsCall e d.fs).1 <;> simp [replyFirst,reply,Prog.modify,firstError,pure]

structure Closes (last : Except Errno Unit → Handler Unit) (e : Env Call) : Prop where
  replies : ∀ {r u v}, last r e u = some ((),v) → u.replies <+: v.replies
  error : ∀ {err u v}, last (.error err) e u = some ((),v) → u.replies ++ [.err (some err)] <+: v.replies
  fs : ∀ {r u v}, last r e u = some ((),v) → Same u.fs v.fs
  id : ∀ {r u v}, last r e u = some ((),v) → Same u.id v.id

def BothOk (fsCall idCall : Sys Call (Except Errno Unit)) (e : Env Call) (d : State) : Prop :=
  (fsCall e d.fs).1.isOk = true ∧ (idCall e d.id).1.isOk = true

-- Neither call changes its tree, counted from an earlier state.
def Idle (fsCall idCall : Sys Call (Except Errno Unit)) (e : Env Call) (d0 d : State) : Prop :=
  Same d0.fs (fsCall e d.fs).2 ∧ Same d0.id (idCall e d.id).2

theorem bothEnds {fsCall idCall : Sys Call (Except Errno Unit)} {last : Except Errno Unit → Handler Unit}
    {done : State → Prop} {works : Prop} {d0 : State} {t} (fresh : d.replies = []) (closes : Closes last e)
    (ran : (do
      let first ← sys .fs fsCall
      replyFirst first
      let second ← sys .id idCall
      last second) e d = some ((),t))
    (needs : works → BothOk fsCall idCall e d)
    (ends : ∀ {m n}, fsCall e d.fs = (.ok (),m) → idCall e d.id = (.ok (),n) →
      last (.ok ()) e {d with fs := m, id := n} = some ((),t) → Same m t.fs → Same n t.id →
      (works ∧ (∃ rest, t.replies = .err none :: rest) ∧ done t) ∨
        ¬ works ∧ ∃ err rest, t.replies = .err (some err) :: rest) :
    Ends d0 done works (Idle fsCall idCall e d0 d) t := by
  rw [bothRun] at ran
  have fs := closes.fs ran
  have id := closes.id ran
  have same : Same d0.fs t.fs ∧ Same d0.id t.id ↔ Idle fsCall idCall e d0 d := and_congr (sameIff fs) (sameIff id)
  cases one : (fsCall e d.fs).1 with
  | error err =>
    obtain ⟨rest,more⟩ := closes.replies ran
    simp only [one,firstError,fresh,List.nil_append] at more
    exact .failure (fun works => by simp [BothOk,one,Except.isOk,Except.toBool] at needs; exact needs works)
      (more.symm.trans List.singleton_append) same
  | ok _ =>
    cases two : (idCall e d.id).1 with
    | error err =>
      rw [two] at ran
      obtain ⟨rest,more⟩ := closes.error ran
      simp only [one,firstError,fresh,List.nil_append,List.append_nil] at more
      exact .failure (fun works => by simp [BothOk,two,Except.isOk,Except.toBool] at needs; exact needs works)
        (more.symm.trans List.singleton_append) same
    | ok _ =>
      simp only [one,two,firstError,List.append_nil] at ran
      rcases ends (Prod.ext one rfl) (Prod.ext two rfl) ran fs id with ⟨works,⟨rest,first⟩,made⟩ |
        ⟨fails,err,rest,first⟩
      · exact .success works first (by simp) made
      · exact .failure fails first same

theorem closesReply (e : Env Call) : Closes replyErr e := by
  have ends : ∀ {r : Except Errno Unit} {u v}, replyErr r e u = some ((),v) →
      ∃ x, v = {u with replies := u.replies ++ [x]} := by
    intro r u v ran
    cases r <;> exact ⟨_,replySome ran⟩
  refine ⟨fun ran => ?_,fun ran => ?_,fun ran => ?_,fun ran => ?_⟩
  · obtain ⟨x,rfl⟩ := ends ran
    exact List.prefix_append _ _
  · rw [replySome ran]
  · obtain ⟨x,rfl⟩ := ends ran
    exact ⟨rfl,fun _ => rfl⟩
  · obtain ⟨x,rfl⟩ := ends ran
    exact ⟨rfl,fun _ => rfl⟩

theorem okCase {x : Except Errno α × Mount Call} {m m' : Mount Call} {a} {Q : Prop}
    (cases : (∃ err, x = (.error err,m)) ∨ Q) (ok : x = (.ok a,m')) : Q := by
  refine cases.resolve_left ?_
  rintro ⟨err,failed⟩
  cases ok.symm.trans failed

theorem unlinkGone {c : Call} {dir : Slot} {name : FileName} {rmdir : Bool} {m m' n : Mount Call}
    (ok : unlinkAt c dir name rmdir e m = (.ok (),m')) (same : Same m' n) : Gone m n dir name := by
  obtain ⟨up,p,v,at_,removed,done⟩ := okCase (unlinkAtCases c dir name rmdir e m) ok
  cases (Prod.mk.inj (ok.symm.trans done)).2
  obtain ⟨_,_,_,find⟩ := removeOk removed
  exact ⟨up,p,at_,by rw [same.tree,find,if_pos rfl]⟩

theorem renameRenamed {c : Call} {dir newdir : Slot} {name newname : FileName} {m m' n : Mount Call}
    (ok : renameAt c dir name newdir newname e m = (.ok (),m')) (same : Same m' n) :
    Renamed m n dir name newdir newname := by
  obtain ⟨up,p,up',q,v,at_,into,moved,done⟩ := okCase (renameAtCases c dir name newdir newname e m) ok
  cases (Prod.mk.inj (ok.symm.trans done)).2
  exact ⟨up,p,up',q,v,at_,into,moved,same.tree⟩

theorem setxattrIs {c : Call} {slot : Slot} {name value : Bytes} {flag} {m m' n : Mount Call}
    (ok : setxattrAt c slot name value flag e m = (.ok (),m')) (same : Same m' n) :
    AttrIs m n slot name (some value) := by
  obtain ⟨f,known,done⟩ := okCase (setxattrAtCases c slot name value flag e m) ok
  cases (Prod.mk.inj (ok.symm.trans done)).2
  exact ⟨f,known,by rw [same.xattr,setAttrXattr,if_pos ⟨rfl,rfl⟩]⟩

theorem removexattrIs {c : Call} {slot : Slot} {name : Bytes} {m m' n : Mount Call}
    (ok : removexattrAt c slot name e m = (.ok (),m')) (same : Same m' n) :
    AttrIs m n slot name none := by
  obtain ⟨f,value,known,_,done⟩ := okCase (removexattrAtCases c slot name e m) ok
  cases (Prod.mk.inj (ok.symm.trans done)).2
  exact ⟨f,known,by rw [same.xattr,setAttrXattr,if_pos ⟨rfl,rfl⟩]⟩

end Pairs

-- Each call of the request succeeds, and so does the lookup that ends a create, mkdir or symlink.
def Works (e : Env Call) (d : State) : Req → Prop
  | .create parent name flags => ∃ dir ∈ d.inode parent, ∃ fd m idFd n fh u,
      openCreate (.create .fs) dir.fd name flags e d.fs = (.ok fd,m) ∧
      openCreate (.create .id) dir.idFd name flags e d.id = (.ok idFd,n) ∧
      chooseCopy parent name fd idFd e {d with fs := m, id := n} = some (fh,u) ∧ Answers e u dir name
  | .mknod parent name kind link => ∃ dir ∈ d.inode parent, ∃ m u,
      makeAt (.mknod .fs) dir.fd name kind link e d.fs = (.ok (),m) ∧
      mknodId parent dir name kind link e {d with fs := m} = some (.ok (),u) ∧ Answers e u dir name
  | .link ino parent name => ∃ i ∈ d.inode ino, ∃ dir ∈ d.inode parent,
      BothOk (linkAt (.link .fs) i.fd dir.fd name) (linkAt (.link .id) i.idFd dir.idFd name) e d ∧
      e.fault .linkStat = none
  | .rename parent name newparent newname flags => flags = false ∧ ∃ dir ∈ d.inode parent,
      ∃ ndir ∈ d.inode newparent, BothOk (renameAt (.rename .fs) dir.fd name ndir.fd newname)
        (renameAt (.rename .id) dir.idFd name ndir.idFd newname) e d
  | .unlink parent name => ∃ dir ∈ d.inode parent, ∃ u ∈ beforeUnlink e d parent name,
      BothOk (unlinkAt (.unlink .fs) dir.fd name false) (unlinkAt (.unlink .id) dir.idFd name false) e u
  | .rmdir parent name => ∃ dir ∈ d.inode parent,
      BothOk (unlinkAt (.rmdir .fs) dir.fd name true) (unlinkAt (.rmdir .id) dir.idFd name true) e d
  | .setxattr ino name value flag => ∃ i ∈ d.inode ino,
      BothOk (setxattrAt (.setxattr .fs) i.fd name value flag)
        (setxattrAt (.setxattr .id) i.idFd name value flag) e d
  | .removexattr ino name => ∃ i ∈ d.inode ino, ∃ m n v,
      removexattrAt (.removexattr .fs) i.fd name e d.fs = (.ok (),m) ∧
      removexattrAt (.removexattr .id) i.idFd name e d.id = (.ok (),n) ∧
      convertUnmarked ino name e {d with fs := m, id := n} = some (none,v)
  | _ => False

-- What the request has called when it gives up has changed neither tree.
def Untouched (e : Env Call) (d : State) : Req → Prop
  | .create parent name flags => ∃ dir ∈ d.inode parent,
      match openCreate (.create .fs) dir.fd name flags e d.fs,openCreate (.create .id) dir.idFd name flags e d.id with
      | (.ok fd,m),(.ok idFd,n) => ∃ fh u, chooseCopy parent name fd idFd e {d with fs := m, id := n} = some (fh,u) ∧
          Same d.fs u.fs ∧ Same d.id u.id
      | (_,m),_ => Same d.fs m
  | .mknod parent name kind link => ∃ dir ∈ d.inode parent,
      (makeAt (.mknod .fs) dir.fd name kind link e d.fs).1.isOk = false
  | .link ino parent name => ∃ i ∈ d.inode ino, ∃ dir ∈ d.inode parent,
      (linkAt (.link .fs) i.fd dir.fd name e d.fs).1.isOk = false
  | .rename parent name newparent newname flags => flags = true ∨ ∃ dir ∈ d.inode parent,
      ∃ ndir ∈ d.inode newparent, Idle (renameAt (.rename .fs) dir.fd name ndir.fd newname)
        (renameAt (.rename .id) dir.idFd name ndir.idFd newname) e d d
  | .unlink parent name => ∃ dir ∈ d.inode parent, match beforeUnlink e d parent name with
      | some u => Idle (unlinkAt (.unlink .fs) dir.fd name false) (unlinkAt (.unlink .id) dir.idFd name false) e d u
      | none => ∃ r u, doLookup parent name e d = some (r,u) ∧ Same d.id u.id
  | .rmdir parent name => ∃ dir ∈ d.inode parent,
      Idle (unlinkAt (.rmdir .fs) dir.fd name true) (unlinkAt (.rmdir .id) dir.idFd name true) e d d
  | .setxattr ino name value flag => ∃ i ∈ d.inode ino,
      Idle (setxattrAt (.setxattr .fs) i.fd name value flag)
        (setxattrAt (.setxattr .id) i.idFd name value flag) e d d
  | .removexattr ino name => ∃ i ∈ d.inode ino,
      Idle (removexattrAt (.removexattr .fs) i.fd name) (removexattrAt (.removexattr .id) i.idFd name) e d d
  | _ => False

def EndsAs (e : Env Call) (d : State) (req : Req) (t : State) : Prop :=
  Ends d (fun t => Done d t req) (Works e d req) (Untouched e d req) t

section Requests
variable {e : Env Call} {d : State}

theorem memAt {α : Type} {o : Option α} {a : α} {P : α → Prop} (known : o = some a) : (∃ b ∈ o, P b) ↔ P a := by
  simp [known]

theorem failedAtOnce {d0 : State} {t} {done : State → Prop} {works untouched : Prop} {err : Errno}
    (ran : reply (.err (some err)) e d = some ((),t)) (mute : d.replies = []) (fails : ¬ works)
    (same : Same d0.fs d.fs ∧ Same d0.id d.id ↔ untouched) : Ends d0 done works untouched t := by
  rw [replySome ran]
  exact .failure fails (show d.replies ++ [_] = .err (some err) :: [] by rw [mute]; rfl) same

theorem rmdirEnds {parent : Ref} {name : FileName} {t} (valid : Known d parent)
    (fresh : d.replies = []) (ran : sfsRmdir parent name e d = some ((),t)) : EndsAs e d (.rmdir parent name) t := by
  obtain ⟨dir,known,filled⟩ := valid
  unfold sfsRmdir at ran
  rw [bindEq (getInodeEq e known filled)] at ran
  simp only [EndsAs,Works,Untouched,memAt known]
  refine bothEnds fresh (closesReply e) ran id ?_
  intro m n fs idOk last sameFs sameId
  refine .inl ⟨⟨by rw [fs]; rfl,by rw [idOk]; rfl⟩,?_,fun dir' known' => ?_⟩
  · rw [replySome last]
    exact ⟨[],by rw [fresh]; rfl⟩
  · cases known.symm.trans known'
    exact ⟨unlinkGone fs sameFs,unlinkGone idOk sameId⟩

theorem renameEnds {parent newparent : Ref} {name newname : FileName} {flags : Bool} {t}
    (valid : Known d parent ∧ Known d newparent) (fresh : d.replies = [])
    (ran : sfsRename parent name newparent newname flags e d = some ((),t)) :
    EndsAs e d (.rename parent name newparent newname flags) t := by
  obtain ⟨⟨dir,known,filled⟩,⟨ndir,known',filled'⟩⟩ := valid
  unfold sfsRename at ran
  rw [bindEq (getInodeEq e known filled),bindEq (getInodeEq e known' filled')] at ran
  simp only [EndsAs,Works,Untouched,memAt known,memAt known']
  cases flags with
  | true =>
    exact failedAtOnce ran fresh (by simp) (iff_of_true ⟨sameSelf _,sameSelf _⟩ (.inl rfl))
  | false =>
    simp only [true_and,Bool.false_eq_true,false_or]
    refine bothEnds fresh (closesReply e) ran id ?_
    intro m n fs idOk last sameFs sameId
    refine .inl ⟨⟨by rw [fs]; rfl,by rw [idOk]; rfl⟩,?_,fun dir1 ndir1 known1 known1' => ?_⟩
    · rw [replySome last]
      exact ⟨[],by rw [fresh]; rfl⟩
    · cases known.symm.trans known1
      cases known'.symm.trans known1'
      exact ⟨renameRenamed fs sameFs,renameRenamed idOk sameId⟩

theorem setxattrEnds {ino : Ref} {name value : Bytes} {flag : SetFlag} {t} (valid : Known d ino)
    (fresh : d.replies = []) (ran : sfsSetxattr ino name value flag e d = some ((),t)) :
    EndsAs e d (.setxattr ino name value flag) t := by
  obtain ⟨i,known,filled⟩ := valid
  unfold sfsSetxattr at ran
  rw [bindEq (getInodeEq e known filled)] at ran
  simp only [EndsAs,Works,Untouched,memAt known]
  refine bothEnds fresh (closesReply e) ran id ?_
  intro m n fs idOk last sameFs sameId
  refine .inl ⟨⟨by rw [fs]; rfl,by rw [idOk]; rfl⟩,?_,fun i' known' => ?_⟩
  · rw [replySome last]
    exact ⟨[],by rw [fresh]; rfl⟩
  · cases known.symm.trans known'
    exact ⟨setxattrIs fs sameFs,setxattrIs idOk sameId⟩

def CopyThere (m : Mount Call) (idDir : Slot) (name : FileName) : Prop :=
  ∃ up q entry, m.dirAt idDir = .ok (up,q) ∧ m.vol.tree.find (q ++ [name]) = some entry

theorem makeThere {c : Call} {idDir : Slot} {name : FileName} {m : Mount Call} {up p v ino kind content}
    (there : CopyThere m idDir name) (at_ : m.dirAt idDir = .ok (up,p))
    (made : m.vol.make c ino kind content p name = .ok v) : False := by
  obtain ⟨up',q,entry,at_',found⟩ := there
  cases at_.symm.trans at_'
  obtain ⟨_,⟨_,absent,_⟩,_⟩ := makeOk made
  rw [found] at absent
  cases absent

theorem createSame {c : Call} {idDir : Slot} {name : FileName} {m : Mount Call}
    (there : CopyThere m idDir name) : Same m (openCreate c idDir name ⟨.read,false,false⟩ e m).2 := by
  rcases openCreateCases c idDir name ⟨.read,false,false⟩ e m with ⟨err,same⟩ |
    ⟨_,_,entry,_,_,_,same⟩ | ⟨_,_,v,at_,made,same⟩
  · rw [same]
    exact ⟨rfl,fun _ => rfl⟩
  · rw [same]
    exact ⟨(clearedAlike ⟨.read,false,false⟩ m entry []).tree,fun ino => funext fun attr =>
      (clearedAlike ⟨.read,false,false⟩ m entry attr).xattr ino⟩
  · exact (makeThere there at_ made).elim

theorem makeSame {c : Call} {idDir : Slot} {name : FileName} {kind content} {m : Mount Call}
    (there : CopyThere m idDir name) : Same m (makeAt c idDir name kind content e m).2 := by
  rcases makeAtCases c idDir name kind content e m with ⟨err,same⟩ | ⟨_,_,v,at_,made,_⟩
  · rw [same]
    exact ⟨rfl,fun _ => rfl⟩
  · exact (makeThere there at_ made).elim

theorem sameTrans {m m1 m2 : Mount Call} (one : Same m m1) (two : Same m1 m2) : Same m m2 :=
  ⟨two.tree.trans one.tree,fun ino => (two.xattr ino).trans (one.xattr ino)⟩

theorem openIdCopySame {idDir : Slot} {name : FileName} {kind : Kind} {m : Mount Call}
    (there : CopyThere m idDir name) : Same m (openIdCopy idDir name kind e m).2 := by
  have again : ∀ n : Mount Call, Same n (openPath .lookupReopen idDir name e n).2 :=
    fun n => quietSame (openPathQuiet .lookupReopen idDir name e n)
  simp only [openIdCopy,bind]
  rcases openPathCases .lookupOpenId idDir name e m with ⟨err,failed⟩ | ⟨_,_,entry,_,_,done⟩
  · rw [failed]
    cases err with
    | enoent =>
      unfold makeIdCopy
      split
      · exact sameTrans (makeSame there) (again _)
      · exact sameTrans (createSame there) (sameTrans (quietSame (closeQuiet _ e _)) (again _))
    | _ => exact ⟨rfl,fun _ => rfl⟩
  · rw [done]
    exact ⟨rfl,fun _ => rfl⟩

structure Stays (d d' : State) : Prop where
  fs : Quiet d.fs d'.fs
  id : Same d.id d'.id
  ages : Grows d.id d'.id
  replies : d'.replies = d.replies

theorem lookupStays {parent : Ref} {name : FileName} {dir r d'} (known : d.inode parent = some dir)
    (ok : doLookup parent name e d = some (r,d'))
    (there : resolve e d.fs d.conf.srcDev dir name = none ∨ CopyThere d.id dir.idFd name) :
    Stays d d' := by
  have looks := doLookupLooks parent name e d r d' ok
  refine ⟨looks.fs,?_,looks.id,Service.lookupMute parent name e d r d' ok⟩
  have told := lookupTold known ok
  unfold Told at told
  split at told
  · rw [told]
    exact ⟨rfl,fun _ => rfl⟩
  · rename_i found
    rcases there with none | there
    · rw [none] at found
      cases found
    · simp only at told
      split at told
      · rw [told.1]
        exact ⟨rfl,fun _ => rfl⟩
      · rw [told.1]
        exact openIdCopySame there

theorem presentAfter {parent : Ref} {name : FileName} {d1 d2 d3 t : State} {dir : Inode} {up p entry idUp q idEntry r}
    (fs : Entered d.fs d1.fs dir.fd name up p entry) (id : Entered d.id d1.id dir.idFd name idUp q idEntry)
    (around : Around d.fs.next d.id.next d1 d2) (ran : doLookup parent name e d2 = some (r,d3))
    (sameFs : t.fs = d3.fs) (sameId : t.id = d3.id) :
    Present d.fs t.fs dir.fd name entry.kind ∧ Present d.id t.id dir.idFd name idEntry.kind := by
  obtain ⟨_,found⟩ := fs.still (around.held fs.held.next) around.tree
  obtain ⟨_,foundId⟩ := id.still (around.heldId id.held.next) around.idTree
  have looks := doLookupLooks parent name e d2 r d3 ran
  refine ⟨⟨up,p,entry,fs.was,?_,rfl⟩,⟨idUp,q,idEntry,id.was,?_,rfl⟩⟩
  · rw [sameFs,looks.fs.tree,found]
  · rw [sameId]
    exact looks.id.kept foundId

theorem createEnds {parent : Ref} {name : FileName} {flags : Flags} {t} (valid : Known d parent)
    (fresh : d.replies = []) (ran : sfsCreate parent name flags e d = some ((),t)) :
    EndsAs e d (.create parent name flags) t := by
  obtain ⟨dir,known,filled⟩ := valid
  unfold sfsCreate at ran
  rw [bindEq (getInodeEq e known filled)] at ran
  rcases first : openCreate (.create .fs) dir.fd name flags e d.fs with ⟨r,m⟩
  rcases second : openCreate (.create .id) dir.idFd name flags e d.id with ⟨r',n⟩
  simp only [EndsAs,Works,Untouched,memAt known,first,second]
  have one : sys .fs (openCreate (.create .fs) dir.fd name flags) e d = some (r,{d with fs := m}) := by
    simp [sys,Prog.zoom,State.mount,State.setMount,first]
  have two : sys .id (openCreate (.create .id) dir.idFd name flags) e {d with fs := m} =
      some (r',{d with fs := m, id := n}) := by
    simp [sys,Prog.zoom,State.mount,State.setMount,second]
  rw [bindEq one] at ran
  cases r with
  | error err =>
    cases openCreateError first
    exact failedAtOnce ran fresh (by simp) (iff_of_true ⟨sameSelf _,sameSelf _⟩ (sameSelf _))
  | ok fd =>
    simp only at ran
    rw [bindEq two] at ran
    cases r' with
    | error err =>
      cases openCreateError second
      exact failedAtOnce ran fresh (by simp) (and_iff_left (sameSelf _))
    | ok idFd =>
      simp only at ran
      obtain ⟨rfl,up,p,entry,fs,kind,_⟩ := createEntered first
      obtain ⟨_,idUp,q,idEntry,id,kindId,_⟩ := createEntered second
      obtain ⟨fh,d2,chosen,rest⟩ := bindSome ran
      obtain ⟨r,d3,lookup,last⟩ := bindSome rest
      have table : ({d with fs := m, id := n} : State).inode parent = some dir := by cases parent <;> exact known
      have around : Around d.fs.next d.id.next {d with fs := m, id := n} d2 :=
        chooseAround (Nat.le_refl _) e _ fh d2 chosen
      have known2 : d2.inode parent = some dir := (aroundInode around parent).trans table
      have mute : d3.replies = [] := (Service.lookupMute parent name e d2 r d3 lookup).trans
        ((plainRan (plainChoose name _ idFd ⟨dir,table,filled⟩) chosen).1.trans fresh)
      have answers := @lookupExact parent name e d2 dir (getInodeEq e known2 filled)
      cases r with
      | ok x =>
        obtain ⟨sameFs,sameId,replies⟩ := replyCreateSome last
        refine .success ⟨_,m,idFd,n,fh,d2,rfl,rfl,chosen,answers.mp ⟨x,d3,lookup⟩⟩
          (replies.trans (by rw [mute]; rfl)) (by simp) fun dir' known' => ?_
        cases known.symm.trans known'
        have present := presentAfter fs id around lookup sameFs sameId
        rwa [kind,kindId] at present
      | error err =>
        obtain ⟨dirId,foundId⟩ := id.still (around.heldId id.held.next) around.idTree
        have stays := lookupStays known2 lookup (.inr ⟨idUp,q,idEntry,dirId,foundId⟩)
        refine failedAtOnce last mute ?_ ?_
        · rintro ⟨_,_,_,_,_,u,isFirst,isSecond,chosen',works⟩
          cases isFirst
          cases isSecond
          cases chosen.symm.trans chosen'
          obtain ⟨x,u,found⟩ := answers.mpr works
          cases lookup.symm.trans found
        · rw [sameIff (quietSame stays.fs),sameIff stays.id]
          refine ⟨fun same => ⟨fh,d2,chosen,same⟩,?_⟩
          rintro ⟨_,_,chosen',same⟩
          cases chosen.symm.trans chosen'
          exact same

theorem makeFails {c : Call} {dir : Slot} {name kind content} {m : Mount Call} {err m'}
    (failed : makeAt c dir name kind content e m = (.error err,m')) : m' = m := by
  rcases makeAtCases c dir name kind content e m with ⟨_,same⟩ | ⟨_,_,_,_,_,same⟩ <;>
    rw [failed] at same <;> cases same
  rfl

theorem makeChanges {c : Call} {dir : Slot} {name kind content} {m m' : Mount Call}
    (ok : makeAt c dir name kind content e m = (.ok (),m')) : m'.vol.tree ≠ m.vol.tree := by
  obtain ⟨up,p,v,_,made,rfl⟩ := makeAtOk ok
  intro same
  have new := madeFind made (p ++ [name])
  rw [if_pos rfl,show v.tree = m.vol.tree from same] at new
  obtain ⟨_,⟨_,absent,_⟩,_⟩ := makeOk made
  cases absent.symm.trans new

theorem mknodEnds {parent : Ref} {name : FileName} {kind : Kind} {link : Bytes} {t}
    (valid : Known d parent) (two : kind = .dir ∨ kind = .lnk) (fresh : d.replies = [])
    (ran : mknodSymlink parent name kind link e d = some ((),t)) : EndsAs e d (.mknod parent name kind link) t := by
  obtain ⟨dir,known,filled⟩ := valid
  unfold mknodSymlink at ran
  rw [bindEq (getInodeEq e known filled)] at ran
  obtain ⟨made,u,calls,last⟩ := bindSome ran
  obtain ⟨r,d1,call,calls⟩ := bindSome calls
  obtain ⟨isR,rfl⟩ := sysSome call
  rcases first : makeAt (.mknod .fs) dir.fd name kind link e d.fs with ⟨r',m⟩
  simp only [EndsAs,Works,Untouched,memAt known,first]
  simp only [State.mount,State.setMount,first] at isR calls
  subst isR
  cases r with
  | error err =>
    obtain ⟨rfl,rfl⟩ := pureSome calls
    cases makeFails first
    exact failedAtOnce last fresh (by simp) (iff_of_true ⟨sameSelf _,sameSelf _⟩ rfl)
  | ok _ =>
    have table : ({d with fs := m} : State).inode parent = some dir := by cases parent <;> exact known
    obtain ⟨r,d2,copied,lookup⟩ := bindSome calls
    have mute2 := (plainRan (plainMknodId dir name kind link ⟨dir,table,filled⟩) copied).1.trans fresh
    obtain ⟨made',n,second,rfl,⟨⟨err,rfl⟩,rfl⟩ | ⟨rfl,around⟩⟩ := mknodIdMade two copied
    · obtain ⟨rfl,rfl⟩ := pureSome lookup
      refine failedAtOnce last fresh ?_
        (iff_of_false (fun same => makeChanges first same.1.tree) (by simp [Except.isOk,Except.toBool]))
      rintro ⟨m',u,isFirst,copied',_⟩
      cases isFirst
      cases copied.symm.trans copied'
    · have known2 : d2.inode parent = some dir := (aroundInode (around 0 0) parent).trans (by cases parent <;> exact table)
      have mute : u.replies = [] := (Service.lookupMute parent name e d2 made u lookup).trans mute2
      have answers := @lookupExact parent name e d2 dir (getInodeEq e known2 filled)
      obtain ⟨up,p,fs⟩ := makeEntered first
      obtain ⟨idUp,q,id⟩ := makeEntered second
      have looks := doLookupLooks parent name e d2 made u lookup
      cases made with
      | ok x =>
        rw [replySome last]
        refine .success ⟨m,d2,rfl,copied,answers.mp ⟨x,u,lookup⟩⟩
          (show u.replies ++ [_] = .entry (some x) :: [] by rw [mute]; rfl) (by simp) fun dir' known' => ?_
        cases known.symm.trans known'
        exact presentAfter fs id (around _ _) lookup rfl rfl
      | error err =>
        refine failedAtOnce last mute ?_ (iff_of_false (fun same => ?_) (by simp [Except.isOk,Except.toBool]))
        · rintro ⟨m',u,isFirst,copied',works⟩
          cases isFirst
          cases copied.symm.trans copied'
          obtain ⟨x,u,found⟩ := answers.mpr works
          cases lookup.symm.trans found
        · have kept : u.fs.vol.tree = m.vol.tree := looks.fs.tree.trans (around 0 0).tree
          exact makeChanges first (kept.symm.trans same.1.tree)

theorem linkLinked {c : Call} {slot dir : Slot} {name : FileName} {m m' : Mount Call}
    (ok : linkAt c slot dir name e m = (.ok (),m')) :
    Linked m m' slot dir name ∧ (m'.file slot).isSome = true ∧ m'.vol.tree ≠ m.vol.tree := by
  obtain ⟨f,up,p,v,there,at_,linked,done⟩ := okCase (linkAtCases c slot dir name e m) ok
  cases (Prod.mk.inj (ok.symm.trans done)).2
  obtain ⟨_,_,_,_,absent,find⟩ := linkOk linked
  have new := (find (p ++ [name])).trans (if_pos rfl)
  refine ⟨⟨f,up,p,there,at_,new⟩,Option.isSome_iff_exists.mpr ⟨f,there⟩,fun same => ?_⟩
  rw [show v.tree = m.vol.tree from same,absent] at new
  cases new

theorem linkFails {c : Call} {slot dir : Slot} {name : FileName} {m m' : Mount Call} {err}
    (failed : linkAt c slot dir name e m = (.error err,m')) : m' = m := by
  rcases linkAtCases c slot dir name e m with ⟨_,same⟩ | ⟨_,_,_,_,_,_,_,same⟩ <;>
    rw [failed] at same <;> cases same
  rfl

theorem linkEnds {ino parent : Ref} {name : FileName} {t} (valid : Known d ino ∧ Known d parent)
    (fresh : d.replies = []) (ran : sfsLink ino parent name e d = some ((),t)) :
    EndsAs e d (.link ino parent name) t := by
  obtain ⟨⟨i,known,filled⟩,⟨dir,knownDir,filledDir⟩⟩ := valid
  unfold sfsLink at ran
  rw [bindEq (getInodeEq e known filled),bindEq (getInodeEq e knownDir filledDir)] at ran
  obtain ⟨made,u,calls,last⟩ := bindSome ran
  obtain ⟨r,d1,call,calls⟩ := bindSome calls
  obtain ⟨isR,rfl⟩ := sysSome call
  rcases first : linkAt (.link .fs) i.fd dir.fd name e d.fs with ⟨r',m⟩
  simp only [EndsAs,Works,Untouched,memAt known,memAt knownDir,BothOk,first]
  simp only [State.mount,State.setMount,first] at isR calls
  subst isR
  cases r with
  | error err =>
    obtain ⟨rfl,rfl⟩ := pureSome calls
    cases linkFails first
    exact failedAtOnce last fresh (by simp [Except.isOk,Except.toBool])
      (iff_of_true ⟨sameSelf _,sameSelf _⟩ rfl)
  | ok _ =>
    obtain ⟨fs,there,changed⟩ := linkLinked first
    have touched : ∀ {w : State}, w.fs = m → ¬ (Same d.fs w.fs ∧ Same d.id w.id) := by
      rintro w rfl same
      exact changed same.1.tree
    obtain ⟨r,d2,call,calls⟩ := bindSome calls
    obtain ⟨isR,rfl⟩ := sysSome call
    rcases second : linkAt (.link .id) i.idFd dir.idFd name e d.id with ⟨r',n⟩
    simp only [State.mount,State.setMount,second] at isR calls
    subst isR
    cases r with
    | error err =>
      obtain ⟨rfl,rfl⟩ := pureSome calls
      exact failedAtOnce last fresh (by simp [second,Except.isOk,Except.toBool])
        (iff_of_false (touched rfl) (by simp [Except.isOk,Except.toBool]))
    | ok _ =>
      obtain ⟨id,thereId,_⟩ := linkLinked second
      have open_ : ((({d with fs := m, id := n} : State).mount i.side).file i.slot).isSome = true := by
        cases isId : i.isId <;> simpa [Inode.side,Inode.slot,isId,State.mount]
      obtain ⟨f,opened⟩ := Option.isSome_iff_exists.mp open_
      obtain ⟨isMade,isU⟩ := sysSome calls
      have same : u = {d with fs := m, id := n} := by
        rw [isU,fstatState]
        cases i.side <;> rfl
      cases made with
      | error err =>
        have fault : e.fault .linkStat ≠ none := by
          intro quiet
          rw [fstatKnows quiet opened] at isMade
          cases isMade
        subst same
        exact failedAtOnce last fresh (by simp [fault]) (iff_of_false (touched rfl) (by simp [Except.isOk,Except.toBool]))
      | ok st =>
        have quiet : e.fault .linkStat = none := (fstatExact.mp ⟨st,isMade.symm⟩).1
        subst same
        obtain ⟨_,v,counted,last⟩ := bindSome last
        cases Option.some.inj counted
        have ends : t.fs = m ∧ t.id = n ∧ ∃ x, t.replies = [.entry (some x)] := by
          rw [replySome last]
          cases ino <;> exact ⟨rfl,rfl,_,congrArg (· ++ [_]) fresh⟩
        obtain ⟨rfl,rfl,x,replies⟩ := ends
        refine .success ⟨⟨rfl,by rw [second]; rfl⟩,quiet⟩ replies (by simp) fun i' dir' known' knownDir' => ?_
        cases known.symm.trans known'
        cases knownDir.symm.trans knownDir'
        exact ⟨fs,id⟩

theorem firstEnds {r : Except Errno Unit} {t} (ran : replyFirst r e d = some ((),t)) :
    t = {d with replies := d.replies ++ firstError r} := by
  cases r with
  | ok _ =>
    rw [(pureSome ran).2]
    simp [firstError]
  | error err => exact replySome ran

theorem closesUnlink (e : Env Call) :
    Closes (fun second => replyFirst second >>= fun _ => reply (.err none)) e := by
  have ends : ∀ {r : Except Errno Unit} {u v}, (replyFirst r >>= fun _ => reply (.err none)) e u =
      some ((),v) → v = {u with replies := u.replies ++ firstError r ++ [.err none]} := by
    intro r u v ran
    obtain ⟨_,w,first,last⟩ := bindSome ran
    cases firstEnds first
    exact replySome last
  refine ⟨fun ran => ?_,fun ran => ?_,fun ran => ?_,fun ran => ?_⟩ <;> rw [ends ran]
  · exact ⟨_,(List.append_assoc _ _ _).symm⟩
  · exact List.prefix_append _ _
  · exact ⟨rfl,fun _ => rfl⟩
  · exact ⟨rfl,fun _ => rfl⟩

theorem goneBefore {m m1 n : Mount Call} {dir : Slot} {name : FileName} {x} (grows : Grows m m1)
    (at_ : m.dirAt dir = .ok x) (gone : Gone m1 n dir name) : Gone m n dir name := by
  obtain ⟨up,p,now,absent⟩ := gone
  cases dirAtGrows grows at_ now
  exact ⟨up,p,at_,absent⟩

theorem lookupResolves {parent : Ref} {name : FileName} {dir x d'} (known : d.inode parent = some dir)
    (ok : doLookup parent name e d = some (.ok x,d')) : ∃ y, d.fs.dirAt dir.fd = .ok y ∧
      (resolve e d.fs d.conf.srcDev dir name).isSome = true := by
  have there : ∀ {newfd attr}, resolve e d.fs d.conf.srcDev dir name = some (newfd,attr) → ∃ y,
      d.fs.dirAt dir.fd = .ok y ∧ (resolve e d.fs d.conf.srcDev dir name).isSome = true := by
    intro newfd attr found
    obtain ⟨up,p,_,at_,_⟩ := resolved found
    exact ⟨(up,p),at_,by rw [found]; rfl⟩
  cases looked ok with
  | missed up nothing failed table =>
    obtain ⟨err,wrong⟩ := failed
    cases wrong
  | known up found here live plain named table =>
    cases known.symm.trans up
    exact there found
  | built up found key old entered dead plain named table =>
    cases known.symm.trans up
    exact there found

/- Closing takes descriptors away and leaves the tree. -/
structure Shut (d d' : State) : Prop where
  fs : Quiet d.fs d'.fs
  id : Quiet d.id d'.id
  files : ∀ {slot f}, d'.id.file slot = some f → d.id.file slot = some f
  replies : d'.replies = d.replies

instance : IsPreorder State Shut where
  refl d := ⟨refl_of Quiet d.fs,refl_of Quiet d.id,id,rfl⟩
  trans _ _ _ one two := ⟨trans_of Quiet one.fs two.fs,trans_of Quiet one.id two.id,
    fun known => one.files (two.files known),two.replies.trans one.replies⟩

theorem closeFiles {slot other : Slot} {f : File} {m : Mount Call}
    (known : (close slot e m).2.file other = some f) : m.file other = some f := by
  obtain ⟨n,rfl⟩ := fdOfFile known
  by_cases apart : Slot.fd n = slot
  · subst apart
    have next : (close (.fd n) e m).2.next = m.next := by
      unfold close
      simp only
      split <;> rfl
    exact (closeQuiet (.fd n) e m).ages.old (next ▸ fileOld known) known
  · rwa [closeFile apart] at known

theorem releaseShut (x : EntryParam) : Prog.Keeps Shut (releaseUnlinked x) := by
  refine releaseUnlinkedKeeps (fun side slot e d a d' ok => ?_) (fun addr => Prog.keepsModify fun d => ?_) x
  · rw [(sysSome ok).2]
    have quiet := closeQuiet slot e (d.mount side)
    cases side with
    | fs => exact ⟨quiet,refl_of Quiet d.id,id,rfl⟩
    | id => exact ⟨refl_of Quiet d.fs,quiet,closeFiles,rfl⟩
  · exact ⟨refl_of Quiet d.fs,refl_of Quiet d.id,id,rfl⟩

theorem idDirBefore {parent : Ref} {name : FileName} {dir r d1 d2} {n : Mount Call} (known : d.inode parent = some dir)
    (lookup : doLookup parent name e d = some (r,d1)) (shut : Shut d1 d2) (gone : Gone d2.id n dir.idFd name) :
    ∃ y, d.id.dirAt dir.idFd = .ok y := by
  obtain ⟨up,q,at_,_⟩ := gone
  cases was : d.id.dirAt dir.idFd with
  | ok y => exact ⟨y,rfl⟩
  | error err =>
    -- without the directory the lookup makes no copy
    have same : d1.id = d.id := by
      have told := lookupTold known lookup
      unfold Told at told
      split at told
      · exact told
      · simp only at told
        split at told
        · exact told.1
        · exact told.1.trans (noDirectory _ was).2
    obtain ⟨f,there,isUp,isDir,found⟩ := dirAtFile at_
    have before := shut.files there
    rw [same] at before
    rw [shut.id.tree,same] at found
    simp [Mount.dirAt,before,isUp,isDir,Lib.Tree.pathOfDir found isDir] at was

theorem unlinkBothEnds {dir : Inode} {name : FileName} {t} {d0 : State} {done : State → Prop} (fresh : d.replies = [])
    (ran : unlinkBoth dir name e d = some ((),t))
    (made : Gone d.fs t.fs dir.fd name → Gone d.id t.id dir.idFd name → done t) :
    Ends d0 done (BothOk (unlinkAt (.unlink .fs) dir.fd name false) (unlinkAt (.unlink .id) dir.idFd name false) e d)
      (Idle (unlinkAt (.unlink .fs) dir.fd name false) (unlinkAt (.unlink .id) dir.idFd name false) e d0 d) t := by
  refine bothEnds fresh (closesUnlink e) ran id ?_
  intro m n fs idOk last sameFs sameId
  refine .inl ⟨⟨by rw [fs]; rfl,by rw [idOk]; rfl⟩,?_,made (unlinkGone fs sameFs) (unlinkGone idOk sameId)⟩
  rw [replySome last]
  exact ⟨[],by rw [fresh]; rfl⟩

theorem unlinkEnds {parent : Ref} {name : FileName} {t} (valid : Known d parent)
    (fresh : d.replies = []) (ran : sfsUnlink parent name e d = some ((),t)) :
    EndsAs e d (.unlink parent name) t := by
  obtain ⟨dir,known,filled⟩ := valid
  unfold sfsUnlink at ran
  rw [bindEq (getInodeEq e known filled),bindEq (show Prog.get e d = some (d,d) from rfl)] at ran
  simp only [EndsAs,Works,Untouched,memAt known]
  cases cached : d.conf.cached with
  | true =>
    rw [if_pos cached] at ran
    have before : beforeUnlink e d parent name = some d := by simp [beforeUnlink,cached]
    rw [memAt before]
    simp only [before]
    refine unlinkBothEnds fresh ran ?_
    intro fs id dir' known'
    cases known.symm.trans known'
    exact ⟨fs,id⟩
  | false =>
    rw [if_neg (by simp [cached])] at ran
    obtain ⟨r,d1,lookup,rest⟩ := bindSome ran
    have looks := doLookupLooks parent name e d r d1 lookup
    have mute : d1.replies = [] := (Service.lookupMute parent name e d r d1 lookup).trans fresh
    cases r with
    | error err =>
      have before : beforeUnlink e d parent name = none := by simp [beforeUnlink,cached,lookup]
      simp only [before]
      refine failedAtOnce rest mute (by simp) ⟨fun same => ⟨_,d1,lookup,same.2⟩,?_⟩
      rintro ⟨_,_,again,same⟩
      cases lookup.symm.trans again
      exact ⟨quietSame looks.fs,same⟩
    | ok x =>
      obtain ⟨_,d2,released,last⟩ := bindSome rest
      have shut := releaseShut x e d1 _ d2 released
      have before : beforeUnlink e d parent name = some d2 := by
        simp [beforeUnlink,cached,lookup,released]
      rw [memAt before]
      simp only [before]
      refine unlinkBothEnds (shut.replies.trans mute) last ?_
      intro fs id dir' known'
      cases known.symm.trans known'
      obtain ⟨y,at_,_⟩ := lookupResolves known lookup
      obtain ⟨z,atId⟩ := idDirBefore known lookup shut id
      exact ⟨goneBefore (trans_of Quiet looks.fs shut.fs).grows at_ fs,
        goneBefore (trans_of Grows looks.id shut.id.grows) atId id⟩

theorem convertStays {ino : Ref} {name : Bytes} {ret t} (ran : convertUnmarked ino name e d = some (ret,t)) :
    Same d.fs t.fs ∧ Same d.id t.id ∧ t.replies = d.replies := by
  have named : ∀ attr, Named attr d t := fun attr =>
    Prog.keepsIte (makeIdFsNamed ino) (Prog.keepsPure _) e d ret t ran
  refine ⟨alikeSame (named []).fs.tree fun attr => (named attr).fs,
    alikeSame (named []).id.tree fun attr => (named attr).id,?_⟩
  unfold convertUnmarked at ran
  split at ran
  · rename_i isId
    obtain ⟨i,u,got,_⟩ := bindSome ran
    obtain ⟨rfl,known,filled⟩ := getInodeSome got
    refine (plainRan (Service.plainConvert name ⟨i,known,filled⟩) (a := ret) (e := e) ?_).1
    rwa [convertUnmarked,if_pos isId]
  · rw [(pureSome ran).2]

theorem closesConvert (ino : Ref) (name : Bytes) (e : Env Call) :
    Closes (fun second => do
      replyFirst second
      let ret ← convertUnmarked ino name
      reply (.err ret)) e := by
  have ends : ∀ {r : Except Errno Unit} {u v}, (do
      replyFirst r
      let ret ← convertUnmarked ino name
      reply (.err ret)) e u = some ((),v) →
      Same u.fs v.fs ∧ Same u.id v.id ∧ ∃ x, v.replies = u.replies ++ (firstError r ++ [x]) := by
    intro r u v ran
    obtain ⟨_,u1,first,rest⟩ := bindSome ran
    obtain ⟨ret,u2,converted,last⟩ := bindSome rest
    cases firstEnds first
    obtain ⟨fs,id,replies⟩ := convertStays converted
    rw [replySome last]
    exact ⟨fs,id,.err ret,by simp [replies]⟩
  refine ⟨fun ran => ?_,fun ran => ?_,fun ran => (ends ran).1,fun ran => (ends ran).2.1⟩
  · obtain ⟨_,_,x,replies⟩ := ends ran
    exact ⟨_,replies.symm⟩
  · obtain ⟨_,_,x,replies⟩ := ends ran
    exact ⟨[x],by rw [replies,firstError,List.append_assoc]⟩

theorem removexattrEnds {ino : Ref} {name : Bytes} {t} (valid : Known d ino)
    (fresh : d.replies = []) (ran : sfsRemovexattr ino name e d = some ((),t)) :
    EndsAs e d (.removexattr ino name) t := by
  obtain ⟨i,known,filled⟩ := valid
  unfold sfsRemovexattr at ran
  rw [bindEq (getInodeEq e known filled)] at ran
  simp only [EndsAs,Works,Untouched,memAt known]
  refine bothEnds fresh (closesConvert ino name e) ran ?_ ?_
  · rintro ⟨m,n,v,fs,id,_⟩
    exact ⟨by rw [fs]; rfl,by rw [id]; rfl⟩
  · intro m n fs id last sameFs sameId
    obtain ⟨_,u,first,rest⟩ := bindSome last
    cases (pureSome first).2
    obtain ⟨ret,v,converted,last⟩ := bindSome rest
    have replies : t.replies = [.err ret] := by
      rw [replySome last]
      exact congrArg (· ++ [_]) ((convertStays converted).2.2.trans fresh)
    cases ret with
    | none =>
      refine .inl ⟨⟨m,n,v,fs,id,converted⟩,⟨[],replies⟩,fun i' known' => ?_⟩
      cases known.symm.trans known'
      exact ⟨removexattrIs fs sameFs,removexattrIs id sameId⟩
    | some err =>
      refine .inr ⟨?_,err,[],replies⟩
      rintro ⟨m',n',v',fs',id',converted'⟩
      cases fs.symm.trans fs'
      cases id.symm.trans id'
      cases converted.symm.trans converted'

end Requests

def asked : State := {Service.withDir with replies := []}

def fullDisk : Env Call := {calm 3 with fault := fun c => if c = .mknod .id then some .enospc else none}

end F3.Driver.Trees
