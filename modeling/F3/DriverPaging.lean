import F3.DriverReplies
import F3.Lib.Paging
import F3.Lib.Run

/-! The listing of a directory in pages: do_readdir with its handle, which keeps the stream
of the directory and the d_off it believes the stream to stand behind. -/
namespace F3.Driver.Service
open Lib (Bytes Prog)
open Lib.Posix
open Lib.Run (run Meets)
open Lib.Paging (Cursor fill place next pages Keyed)

def isDotOrDotdot (name : Bytes) : Bool := name = [46] ∨ name = [46,46]

-- struct dirent
structure Record where
  name : Bytes
  ino : Ino
  kind : Kind
  off : Nat
  named : isDotOrDotdot name = false → NameOk name

def Record.shown (x : Record) : Bool := !isDotOrDotdot x.name

def Record.fileName (x : Record) (dots : ¬ isDotOrDotdot x.name = true) : FileName :=
  ⟨x.name,x.named (Bool.eq_false_iff.mpr dots)⟩

structure Page where
  err : Option Errno
  items : List Record
  cursor : Cursor Record

/- `entsize` is what fuse_add_direntry and fuse_add_direntry_plus return for a name, `envs`
what the calls of the lookup of a name do. -/
structure Listing where
  entsize : Bool → Bytes → Nat
  ino : Ref
  plus : Bool
  envs : FileName → Env Call

def finishPage (err : Option Errno) (sofar : List (FileName × EntryParam)) (here : Cursor Record) : Serve Page := do
  core (replyCollected err sofar)
  pure ⟨err,[],here⟩

def addItem (x : Record) (rest : Serve Page) : Serve Page := do
  let r ← rest
  pure {r with items := x::r.items}

def pageLoop (l : Listing) :
    List Record → Nat → Nat → List (FileName × EntryParam) → Serve Page
  | [],_,offset,sofar => do
      match ← attempt .readdir with
      | .error e => finishPage (some e) sofar ⟨[],offset⟩
      | .ok _ => finishPage none sofar ⟨[],offset⟩
  | x::rest,rem,_,sofar =>
      if dots : isDotOrDotdot x.name = true then pageLoop l rest rem x.off sofar
      else
        let name := x.fileName dots
        let entsize := l.entsize l.plus x.name
        if l.plus then do
          match ← core (Prog.within (l.envs name) (doLookup l.ino name)) with
          | .error e => finishPage (some e) sofar ⟨rest,x.off⟩
          | .ok e =>
              if entsize ≤ rem then addItem x (pageLoop l rest (rem - entsize) x.off ((name,e)::sofar))
              else do
                core (forgetEntry e)
                finishPage none sofar ⟨rest,x.off⟩
        else if entsize ≤ rem then addItem x (pageLoop l rest (rem - entsize) x.off
          ((name,⟨none,0,⟨x.ino,0,x.kind,0,0⟩⟩)::sofar))
        else finishPage none sofar ⟨rest,x.off⟩

def doReaddirPage (l : Listing) (stream : List Record) (d : Cursor Record) (size offset : Nat) : Serve Page := do
  let _ ← core (getInode l.ino)
  match ← attempt .newBuffer with
  | .error _ => do
      fail .enomem
      pure ⟨some .enomem,[],d⟩
  | .ok _ =>
      let d := place Record.off stream d offset
      pageLoop l d.rest size d.offset []

def dirents (l : Listing) : List Record → Nat → List Dirent
  | [],_ => []
  | x::rest,rem =>
      if dots : isDotOrDotdot x.name = true then .dots::dirents l rest rem
      else
        let entsize := l.entsize l.plus x.name
        .entry ⟨x.fileName dots,entsize ≤ rem,l.envs (x.fileName dots)⟩ x.ino x.kind::
          (if entsize ≤ rem then dirents l rest (rem - entsize) else [])

def SameDesk {α β : Type} (p : Serve α) (q : Serve β) : Prop :=
  ∀ out k, (p out k).map Prod.snd = (q out k).map Prod.snd

theorem sameBind {α β γ : Type} {p : Serve α} {f : α → Serve β} {g : α → Serve γ}
    (each : ∀ a, SameDesk (f a) (g a)) : SameDesk (p >>= f) (p >>= g) := by
  intro out k
  simp only [bind]
  cases p out k with
  | none => rfl
  | some r => exact each r.1 out r.2

theorem samePure {α β : Type} (p : Serve α) (a : β) : SameDesk (p >>= fun _ => pure a) p := by
  intro out k
  simp only [bind]
  cases p out k <;> rfl

theorem sameAdd (x : Record) (p : Serve Page) : SameDesk (addItem x p) p := by
  intro out k
  simp only [addItem,bind]
  cases p out k <;> rfl

theorem sameIte {α β : Type} {c : Prop} [Decidable c] {p p' : Serve α} {q q' : Serve β}
    (yes : c → SameDesk p q) (no : ¬ c → SameDesk p' q') :
    SameDesk (if c then p else p') (if c then q else q') := by
  split
  · exact yes (by assumption)
  · exact no (by assumption)

theorem pageLoopDesk (l : Listing) (rest : List Record) (rem offset : Nat)
    (sofar : List (FileName × EntryParam)) :
    SameDesk (pageLoop l rest rem offset sofar) (readdirLoop l.ino l.plus (dirents l rest rem) sofar) := by
  induction rest generalizing rem offset sofar with
  | nil =>
    refine sameBind fun r => ?_
    cases r <;> exact samePure _ _
  | cons x rest ih =>
    unfold pageLoop dirents
    by_cases dots : isDotOrDotdot x.name = true
    · simp only [dots,dite_true,readdirLoop]
      exact ih _ _ _
    · simp only [dots,dite_false,readdirLoop,Bool.false_eq_true]
      refine sameIte (fun plus => ?_) fun plain => ?_
      · refine sameBind fun r => ?_
        cases r with
        | error err => exact samePure _ _
        | ok e =>
          by_cases fits : l.entsize l.plus x.name ≤ rem
          · simp only [fits,if_true,decide_true]
            exact fun out k => (sameAdd _ _ out k).trans (ih _ _ _ out k)
          · simp only [fits,if_false,decide_false,Bool.false_eq_true]
            exact sameBind fun _ => samePure _ _
      · by_cases fits : l.entsize l.plus x.name ≤ rem
        · simp only [fits,if_true,decide_true]
          exact fun out k => (sameAdd _ _ out k).trans (ih _ _ _ out k)
        · simp only [fits,if_false,decide_false,Bool.false_eq_true]
          exact samePure _ _

theorem pageDesk (l : Listing) (stream : List Record) (d : Cursor Record) (size offset : Nat) :
    SameDesk (doReaddirPage l stream d size offset)
      (doReaddir l.ino l.plus (dirents l (place Record.off stream d offset).rest size)) := by
  refine sameBind fun _ => sameBind fun r => ?_
  cases r with
  | error err => exact samePure _ _
  | ok _ => exact pageLoopDesk _ _ _ _ _

section
variable {l : Listing} {out : Outside}

structure Filled (l : Listing) (rest : List Record) (rem offset : Nat) (sofar : List (FileName × EntryParam))
    (k : Desk) (r : Page) (k' : Desk) : Prop where
  page : (r.items,r.cursor) = fill Record.off Record.shown (fun x => l.entsize l.plus x.name) rest rem offset
  reply : ∃ es, k'.driver.replies = k.driver.replies ++ [.entries es] ∧
    es.map (fun e => e.1.val) = sofar.reverse.map (fun e => e.1.val) ++ r.items.map Record.name

theorem attemptEnds (s : Site) (out : Outside) (k : Desk) : attempt s out k = some (match out.fault s with
    | some err => .error err
    | none => .ok (),k) := by
  unfold attempt call
  cases out.fault s <;> rfl

theorem finishEnds {err : Option Errno} {sofar : List (FileName × EntryParam)} {here : Cursor Record} {k : Desk} :
    Prog.Ends (finishPage err sofar here) (fun r k' => r = ⟨err,[],here⟩ ∧
      (err = none → k'.driver.replies = k.driver.replies ++ [.entries sofar.reverse])) out k := by
  cases err with
  | none => exact ⟨_,_,rfl,rfl,fun _ => rfl⟩
  | some e => exact ⟨_,_,rfl,rfl,fun none => by cases none⟩

theorem finishFilled {rest : List Record} {rem offset : Nat} {err : Option Errno}
    {sofar : List (FileName × EntryParam)} {here : Cursor Record} {k k1 : Desk}
    (mute : k1.driver.replies = k.driver.replies) (full : err = none →
      fill Record.off Record.shown (fun x => l.entsize l.plus x.name) rest rem offset = ([],here)) :
    Prog.Ends (finishPage err sofar here)
      (fun r k' => r.err = none → Filled l rest rem offset sofar k r k') out k1 := by
  refine Prog.endsWeaken finishEnds ?_
  rintro _ k' ⟨rfl,said⟩ fine
  exact ⟨(full fine).symm,_,by rw [said fine,mute],by simp⟩

theorem addFilled {x : Record} {rest : List Record} {rem offset : Nat} {sofar : List (FileName × EntryParam)}
    {k k1 : Desk} (dots : ¬ isDotOrDotdot x.name = true) (fits : l.entsize l.plus x.name ≤ rem) (e : EntryParam)
    (mute : k1.driver.replies = k.driver.replies)
    (ends : Prog.Ends (pageLoop l rest (rem - l.entsize l.plus x.name) x.off ((x.fileName dots,e)::sofar))
      (fun r k' => r.err = none → Filled l rest (rem - l.entsize l.plus x.name) x.off
        ((x.fileName dots,e)::sofar) k1 r k') out k1) :
    Prog.Ends (addItem x (pageLoop l rest (rem - l.entsize l.plus x.name) x.off ((x.fileName dots,e)::sofar)))
      (fun r k' => r.err = none → Filled l (x::rest) rem offset sofar k r k') out k1 := by
  obtain ⟨r,k',ran,filled⟩ := ends
  refine ⟨{r with items := x::r.items},k',?_,fun fine => ?_⟩
  · exact (Prog.bindEq ran).trans rfl
  · obtain ⟨page,es,said,names⟩ := filled fine
    have shown : x.shown = true := by simp [Record.shown,dots]
    refine ⟨?_,es,by rw [said,mute],?_⟩
    · simp only [fill,shown,fits,if_true,← page]
    · simp [names,Record.fileName]

theorem pageLoopEnds {rest : List Record} {rem offset : Nat} {sofar : List (FileName × EntryParam)} {k : Desk}
    (known : Known k.driver l.ino) : Prog.Ends (pageLoop l rest rem offset sofar)
      (fun r k' => r.err = none → Filled l rest rem offset sofar k r k') out k := by
  induction rest generalizing rem offset sofar k with
  | nil =>
    refine Prog.endsStep (attemptEnds .readdir out k) ?_
    cases out.fault .readdir with
    | some err => exact finishFilled rfl fun none => by cases none
    | none => exact finishFilled rfl fun _ => rfl
  | cons x rest ih =>
    unfold pageLoop
    by_cases dots : isDotOrDotdot x.name = true
    · have hidden : x.shown = false := by simp [Record.shown,dots]
      simp only [dots,dite_true]
      refine Prog.endsWeaken (ih known) fun r k' filled fine => ?_
      obtain ⟨page,reply⟩ := filled fine
      exact ⟨by simpa only [fill,hidden,Bool.false_eq_true,if_false] using page,reply⟩
    · have shown : x.shown = true := by simp [Record.shown,dots]
      have full : ¬ l.entsize l.plus x.name ≤ rem →
          fill Record.off Record.shown (fun x => l.entsize l.plus x.name) (x::rest) rem offset =
            ([],⟨rest,x.off⟩) := fun no => by simp only [fill,shown,no,if_true,if_false]
      simp only [dots,dite_false,Bool.false_eq_true]
      split
      · obtain ⟨r,t,ran,mute,kept,counted⟩ :=
          @lookupEnds (l.envs (x.fileName dots)) k.driver l.ino (x.fileName dots) known
        have looked : core (Prog.within (l.envs (x.fileName dots)) (doLookup l.ino (x.fileName dots))) out k =
            some (r,{k with driver := t}) := by
          simp only [core,Prog.within,ran,Option.map_some]
        refine Prog.endsStep looked ?_
        cases r with
        | error err => exact finishFilled mute fun none => by cases none
        | ok e =>
          simp only
          split
          · rename_i fits
            exact addFilled dots fits e mute (ih (kept l.ino known))
          · rename_i no
            obtain ⟨_,u,forgot,mute'⟩ := @forgetEntryEnds out.calls t e (counted e rfl)
            have gone : core (forgetEntry e) out {k with driver := t} = some ((),{k with driver := u}) := by
              simp only [core,forgot,Option.map_some]
            refine Prog.endsStep gone (finishFilled ?_ fun _ => full no)
            exact mute'.trans mute
      · split
        · rename_i fits
          exact addFilled dots fits _ rfl (ih known)
        · rename_i no
          exact finishFilled rfl fun _ => full no

theorem pageEnds {stream : List Record} {d : Cursor Record} {size offset : Nat} {k : Desk}
    (known : Known k.driver l.ino) : Prog.Ends (doReaddirPage l stream d size offset) (fun r k' => r.err = none →
      Filled l (place Record.off stream d offset).rest size (place Record.off stream d offset).offset [] k r k')
      out k := by
  obtain ⟨i,here,filled⟩ := known
  have got : core (getInode l.ino) out k = some (i,k) := by
    simp only [core,getInodeEq out.calls here filled,Option.map_some]
  refine Prog.endsStep got (Prog.endsStep (attemptEnds .newBuffer out k) ?_)
  cases out.fault .newBuffer with
  | some err => exact ⟨_,_,rfl,fun none => by cases none⟩
  | none => exact pageLoopEnds ⟨i,here,filled⟩

end

/- A page request of the kernel: the room it has for the reply, whether the entries are to
be looked up, and what the calls do. -/
structure Ask where
  size : Nat
  plus : Bool
  envs : FileName → Env Call
  out : Outside

def Ask.sizes (entsize : Bool → Bytes → Nat) (ask : Ask) : (Record → Nat) × Nat :=
  (fun x => entsize ask.plus x.name,ask.size)

structure Reader where
  driver : State
  cursor : Cursor Record
  offset : Nat
  replies : List Reply
  pages : List (List Record)

section
variable (entsize : Bool → Bytes → Nat) (ino : Ref) (stream : List Record)

def askPage (s : Reader) (ask : Ask) : Serve Page :=
  doReaddirPage ⟨entsize,ino,ask.plus,ask.envs⟩ stream s.cursor ask.size s.offset

def readStep (s : Reader) (ask : Ask) : Option Reader :=
  (askPage entsize ino stream s ask ask.out (opened s.driver)).map fun (r,k) =>
    ⟨k.driver,r.cursor,next Record.off s.offset r.items,s.replies ++ k.driver.replies,s.pages ++ [r.items]⟩

structure Asked (s : Reader) (ask : Ask) : Prop where
  known : Known s.driver ino
  fine : ∀ r k, askPage entsize ino stream s ask ask.out (opened s.driver) = some (r,k) → r.err = none

end

section
variable {entsize : Bool → Bytes → Nat} {ino : Ref} {stream : List Record}

def Replied (r : Reply) (items : List Record) : Prop :=
  ∃ es, r = .entries es ∧ es.map (fun e => e.1.val) = items.map Record.name

theorem readPages {asks : List Ask} {s : Reader}
    (asked : Meets (readStep entsize ino stream) (Asked entsize ino stream) s asks)
    (said : List.Forall₂ Replied s.replies s.pages) :
    ∃ t, run (readStep entsize ino stream) s asks = some t ∧ List.Forall₂ Replied t.replies t.pages ∧
      t.pages = s.pages ++ pages Record.off Record.shown stream s.cursor s.offset
        (asks.map (Ask.sizes entsize)) := by
  induction asks generalizing s with
  | nil => exact ⟨s,rfl,said,by simp [pages]⟩
  | cons ask rest ih =>
    obtain ⟨now,later⟩ := asked
    obtain ⟨r,k,ran,filled⟩ := @pageEnds ⟨entsize,ino,ask.plus,ask.envs⟩ ask.out stream s.cursor ask.size s.offset
      (opened s.driver) now.known
    obtain ⟨isPage,es,reply,names⟩ := filled (now.fine r k ran)
    have reply : k.driver.replies = [.entries es] := reply
    obtain ⟨t1,isT1⟩ : ∃ t1 : Reader, t1 = ⟨k.driver,r.cursor,next Record.off s.offset r.items,
      s.replies ++ k.driver.replies,s.pages ++ [r.items]⟩ := ⟨_,rfl⟩
    have one : readStep entsize ino stream s ask = some t1 := by
      simp only [readStep,askPage,ran,Option.map_some,isT1]
    simp only [one] at later
    have said1 : List.Forall₂ Replied t1.replies t1.pages := by
      rw [isT1,reply]
      exact List.rel_append said (.cons ⟨es,rfl,names⟩ .nil)
    obtain ⟨t,ok,saidT,given⟩ := ih later said1
    refine ⟨t,by simp [run,one,ok],saidT,?_⟩
    have isPage : Lib.Paging.page Record.off Record.shown stream (fun x => entsize ask.plus x.name) s.cursor s.offset
        ask.size = (r.items,r.cursor) := isPage.symm
    simp only [given,isT1,List.map_cons,Ask.sizes,pages,isPage,List.append_assoc,List.singleton_append]

theorem listedWhole {d : State} {asks : List Ask} (keyed : Keyed Record.off stream)
    (room : ∀ ask ∈ asks, ∀ x ∈ stream, x.shown = true → entsize ask.plus x.name ≤ ask.size)
    (asked : Meets (readStep entsize ino stream) (Asked entsize ino stream) ⟨d,⟨stream,0⟩,0,[],[]⟩ asks) :
    ∃ s, run (readStep entsize ino stream) ⟨d,⟨stream,0⟩,0,[],[]⟩ asks = some s ∧
      List.Forall₂ Replied s.replies s.pages ∧
      ([] ∈ s.pages → (s.pages.takeWhile fun p => p ≠ []).flatten = stream.filter Record.shown) ∧
      ((stream.filter Record.shown).length < asks.length → [] ∈ s.pages) := by
  obtain ⟨s,ok,said,given⟩ := readPages asked .nil
  have roomy : ∀ call ∈ asks.map (Ask.sizes entsize), ∀ x ∈ stream, x.shown = true → call.1 x ≤ call.2 :=
    List.forall_mem_map.mpr room
  obtain ⟨whole,reaches⟩ := Lib.Paging.pagesWhole keyed roomy
  rw [List.nil_append] at given
  rw [← given] at whole reaches
  rw [List.length_map] at reaches
  exact ⟨s,ok,said,whole,reaches⟩

instance (d ref) : Decidable (Known d ref) :=
  decidable_of_iff (∃ i ∈ d.inode ref, ref ≠ .root → i.fd ≠ .closed) Iff.rfl

instance (s ask) : Decidable (Asked entsize ino stream s ask) :=
  decidable_of_iff (Known s.driver ino ∧
      ∀ x ∈ askPage entsize ino stream s ask ask.out (opened s.driver), x.1.err = none)
    ⟨fun both => ⟨both.1,fun r k ran => both.2 (r,k) ran⟩,fun asked => ⟨asked.known,fun x ran => asked.fine x.1 x.2 ran⟩⟩

end

-- A root directory with the files a and b, which its stream has between '.' and '..'.
def twoFiles : State := ((run Driver.step (mounted true)
  [.request (.create .root nameA forWriting) (calm 10),
   .request (.create .root nameB forWriting) (calm 11)]).getD (mounted true))

def twoRecords : List Record :=
  [⟨[46],2,.dir,7,by decide⟩,⟨[97],10,.reg,3,by decide⟩,⟨[46,46],2,.dir,9,by decide⟩,⟨[98],11,.reg,5,by decide⟩]

def aligned (plus : Bool) (name : Bytes) : Nat := ((if plus then 152 else 24) + name.length + 7) / 8 * 8

def threeAsks : List Ask := [⟨32,false,fun _ => calm 20,quiet⟩,⟨160,true,fun _ => calm 20,quiet⟩,
  ⟨32,false,fun _ => calm 20,quiet⟩]

theorem twoListed : ∃ s, run (readStep aligned .root twoRecords) ⟨twoFiles,⟨twoRecords,0⟩,0,[],[]⟩ threeAsks = some s ∧
    [] ∈ s.pages ∧ ((s.pages.takeWhile fun p => p ≠ []).flatten.map Record.name = [[97],[98]]) := by
  obtain ⟨s,ok,_,whole,reaches⟩ := @listedWhole aligned .root twoRecords twoFiles threeAsks
    ⟨by decide,by decide⟩ (by decide) (by decide +kernel)
  have ends := reaches (by decide)
  refine ⟨s,ok,ends,?_⟩
  rw [whole ends]
  rfl

end F3.Driver.Service
