import F3.Cxxopts
import F3.Driver

/-! The driver from its command line to the main loop. The words that parse_options leaves are
still in main's own argv, whose second is the mountpoint. What the host answers is a parameter;
running out of memory is left out. -/
namespace F3.Driver.Main
open Lib (Bytes)
open Cxxopts (Details Exception Reads Argument parse count value implicit)

inductive Name where
  | debug | debugFuse | help | nocache | nosplice | single
  | address | idroot | clientSocketPath | serverSocketPath | podUuid
  deriving DecidableEq, Repr

namespace Name

def text : Name → Bytes
  | debug => [100,101,98,117,103]
  | debugFuse => [100,101,98,117,103,45,102,117,115,101]
  | help => [104,101,108,112]
  | nocache => [110,111,99,97,99,104,101]
  | nosplice => [110,111,115,112,108,105,99,101]
  | single => [115,105,110,103,108,101]
  | address => [97,100,100,114,101,115,115]
  | idroot => [105,100,114,111,111,116]
  | clientSocketPath => [99,108,105,101,110,116,45,115,111,99,107,101,116,45,112,97,116,104]
  | serverSocketPath => [115,101,114,118,101,114,45,115,111,99,107,101,116,45,112,97,116,104]
  | podUuid => [112,111,100,45,117,117,105,100]

-- "a,address" and "s,client-socket-path"
def letter : Name → Option UInt8
  | address => some 97
  | clientSocketPath => some 115
  | _ => none

def boolean : Name → Bool
  | debug | debugFuse | help | nocache | nosplice | single => true
  | _ => false

end Name

def names : List Name :=
  [.debug,.debugFuse,.help,.nocache,.nosplice,.single,.address,.idroot,.clientSocketPath,
    .serverSocketPath,.podUuid]

def addOptions (text : Bytes) : Option (Details Name) :=
  (names.find? fun n => n.text = text || n.letter.any fun b => [b] = text).map fun n => ⟨n,n.boolean⟩

/- `setupConn` is what each attempt to connect returns: a descriptor or a negative errno. -/
structure Machine where
  realpath : Bytes → Option Bytes
  setupConn : Bytes → Nat → Int
  lstat : Bytes → Option (Bool × Lib.Posix.Dev)
  opens : Bytes → Bool
  sessionNew : Bool
  signalHandlers : Bool
  mounts : Bytes → Bool

-- The ways to end before the main loop; `nullSource` is a std::string made from a null pointer.
inductive Stop where
  | exit (status : Nat)
  | uncaught (e : Exception)
  | nullSource
  deriving DecidableEq, Repr

def econnrefused : Int := 111

def connectServer (attempt : Nat → Int) : Nat → Int → Int
  | 0,fd => fd
  | timeout + 1,_ =>
      let fd := attempt timeout
      if fd < 0 then if fd ≠ -econnrefused then fd else connectServer attempt timeout fd
      else fd

structure Settings where
  address : Bytes := []
  idroot : Bytes := []
  clientUdsPath : Bytes := []
  serverFd : Int := 0
  podUuid : Bytes := []
  debug : Bool
  nosplice : Bool
  source : Bytes
  deriving DecidableEq, Repr

abbrev Given := List (Name × Bytes)

def parseWrapper (argv : List Bytes) : Except Stop (List Bytes × Given) :=
  match parse addOptions argv with
  | .ok read => .ok read
  | .error (.optionNotExists _) => .error (.exit 2)
  | .error e => .error (.uncaught e)

def settings (m : Machine) (given : Given) (path : Bytes) : Settings where
  address := (value given .address).getD []
  idroot := (value given .idroot).getD []
  clientUdsPath := (value given .clientSocketPath).getD []
  serverFd := match value given .serverSocketPath with
    | some path => connectServer (m.setupConn path) 10 0
    | none => 0
  podUuid := (value given .podUuid).getD []
  debug := count given .debug ≠ 0
  nosplice := count given .nosplice ≠ 0
  source := path

def parseOptions (m : Machine) (argv : List Bytes) : Except Stop (List Bytes × Given × Settings) := do
  let (argv,given) ← parseWrapper argv
  if count given .help ≠ 0 then throw (.exit 0)
  if argv.length ≠ 3 then throw (.exit 2)
  match m.realpath (argv.getD 1 []) with
    | none => throw .nullSource
    | some path => .ok (argv,given,settings m given path)

structure Session where
  fs : Settings
  timeout : Bool
  srcDev : Lib.Posix.Dev
  debugFuse : Bool
  mountpoint : Bytes
  single : Bool
  deriving DecidableEq, Repr

/- `ret` is still the answer of lstat where the session, the handlers or the mount fail: main then
returns 0. -/
def main (m : Machine) (argv : List Bytes) : Except Stop Session := do
  let (argv,options,fs) ← parseOptions m argv
  match m.lstat fs.source with
    | none => throw (.exit 1)
    | some (false,_) => throw (.exit 1)
    | some (true,dev) =>
      if !m.opens fs.source then throw (.exit 1)
      if !m.opens fs.idroot then throw (.exit 1)
      if !(m.sessionNew && m.signalHandlers && m.mounts (argv.getD 2 [])) then throw (.exit 0)
      .ok {fs := fs, timeout := count options .nocache = 0, srcDev := dev,
           debugFuse := count options .debugFuse ≠ 0, mountpoint := argv.getD 2 [],
           single := count options .single ≠ 0}

def Session.config (s : Session) : Config where
  source := s.fs.source
  idroot := s.fs.idroot
  address := s.fs.address
  cached := s.timeout
  srcDev := s.srcDev

def session (m : Machine) (given : Given) (path : Bytes) (dev : Lib.Posix.Dev) (mountpoint : Bytes) :
    Session where
  fs := settings m given path
  timeout := count given .nocache = 0
  srcDev := dev
  debugFuse := count given .debugFuse ≠ 0
  mountpoint := mountpoint
  single := count given .single ≠ 0

structure Ready (m : Machine) (given : Given) (source mountpoint path : Bytes) (dev : Lib.Posix.Dev) :
    Prop where
  noHelp : count given .help = 0
  resolved : m.realpath source = some path
  directory : m.lstat path = some (true,dev)
  sourceOpens : m.opens path
  idrootOpens : m.opens ((value given .idroot).getD [])
  sessionNew : m.sessionNew
  signalHandlers : m.signalHandlers
  mounted : m.mounts mountpoint

theorem mainOfReads {m : Machine} {program source mountpoint path : Bytes} {words : List Bytes} {given : Given}
    {dev : Lib.Posix.Dev} (reads : Reads addOptions words given [source,mountpoint])
    (ready : Ready m given source mountpoint path dev) :
    main m (program :: words) = .ok (session m given path dev mountpoint) := by
  have wrapped : parseWrapper (program :: words) = .ok ([program,source,mountpoint],given) := by
    simp only [parseWrapper,Cxxopts.parseOfReads program reads]
  have parsed : parseOptions m (program :: words) =
      .ok ([program,source,mountpoint],given,settings m given path) := by
    simp only [parseOptions,wrapped,bind,Except.bind,ready.noHelp,ne_eq,not_true_eq_false,
      if_false,List.length_cons,List.length_nil,List.getD_cons_succ,List.getD_cons_zero,ready.resolved]
  have idroot : m.opens (settings m given path).idroot := ready.idrootOpens
  have source : m.lstat (settings m given path).source = some (true,dev) := ready.directory
  have opened : m.opens (settings m given path).source := ready.sourceOpens
  simp only [main,parsed,bind,Except.bind,source,opened,idroot,List.getD_cons_succ,List.getD_cons_zero,
    ready.sessionNew,ready.signalHandlers,ready.mounted,Bool.and_self,Bool.not_true,Bool.false_eq_true,if_false]
  rfl

def Name.word (n : Name) : Bytes := 45 :: 45 :: n.text

theorem wordMatches (n : Name) : Cxxopts.optionMatcher n.word = some (.long n.text none) := by
  cases n <;> decide

theorem nameKnown (n : Name) : addOptions n.text = some ⟨n,n.boolean⟩ := by
  cases n <;> decide

theorem readsFlag (n : Name) {words left : List Bytes} {given : Given} (boolean : n.boolean = true)
    (more : Reads addOptions words given left) :
    Reads addOptions (n.word :: words) ((n,implicit) :: given) left :=
  .option (.spaced (wordMatches n) (nameKnown n) (.flag boolean)) more

theorem readsNext (n : Name) {arg : Bytes} {words left : List Bytes} {given : Given} (text : n.boolean = false)
    (more : Reads addOptions words given left) :
    Reads addOptions (n.word :: arg :: words) ((n,arg) :: given) left :=
  .option (.spaced (wordMatches n) (nameKnown n) (.next text)) more

theorem readsPath (path : Bytes) {words left : List Bytes} {given : Given}
    (more : Reads addOptions words given left) :
    Reads addOptions ((47 :: path) :: words) given ((47 :: path) :: left) :=
  .kept rfl rfl more

end F3.Driver.Main
