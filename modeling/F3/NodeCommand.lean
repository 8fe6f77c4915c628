import F3.DriverOptions
import F3.DriverRequests
import F3.NodeServer

/-! The command line that NodePublishVolume starts the driver with, read back by the driver, and
the state in which the driver then serves its first request. -/
namespace F3.Csi
open Lib (Bytes)
open Driver (Call)
open Driver.Main (Machine Session Given Name connectServer)
open Lib.Posix (Volume absolute)

def utf8 (s : String) : Bytes := s.toUTF8.data.toList

structure Plugin where
  nodeID : String
  clientSocketAddress : String
  serverSocketAddress : String
  deriving DecidableEq, Repr

-- "/f3-fuse-driver"
def driverPath : Bytes := [47,102,51,45,102,117,115,101,45,100,114,105,118,101,114]

-- ":9999"
def port : Bytes := [58,57,57,57,57]

-- "/var/lib/kubelet/plugins/kubernetes.io/csi/pv/"+pvc+"/globalmount"
def globalmount (pvc : Bytes) : Bytes :=
  [47,118,97,114,47,108,105,98,47,107,117,98,101,108,101,116,47,112,108,117,103,105,110,115,47,107,117,98,
    101,114,110,101,116,101,115,46,105,111,47,99,115,105,47,112,118,47] ++ pvc ++
    [47,103,108,111,98,97,108,109,111,117,110,116]

section Command
variable (ns : Plugin) (req : PublishRequest)

def driverArgs (idroot fsPvc f3Pvc : Bytes) : List Bytes :=
  [driverPath,Name.debug.word,Name.nocache.word,Name.single.word,
    Name.nosplice.word,Name.address.word,utf8 ns.nodeID ++ port,Name.idroot.word,idroot,
    Name.clientSocketPath.word,utf8 ns.clientSocketAddress,Name.serverSocketPath.word,
    utf8 ns.serverSocketAddress,Name.podUuid.word,(utf8 req.podUid).take 8,globalmount fsPvc,
    globalmount f3Pvc]

/- The words the process is started with; slicing a short pod UID panics. Start refuses a word with
a zero byte, so that the driver gets them as they are. -/
def driverCommand (server : String) (host : Host) : Option (List Bytes) := do
  let f3Pvc ← getPVCName host.f3Pvc
  let fsPvc ← getPVCName host.fsPvc
  if req.podUid.utf8ByteSize < 8 then none
  else some (driverArgs ns req (utf8 server) (utf8 fsPvc) (utf8 f3Pvc))

def driverGiven (idroot : Bytes) : Given :=
  [(.debug,Cxxopts.implicit),(.nocache,Cxxopts.implicit),(.single,Cxxopts.implicit),
    (.nosplice,Cxxopts.implicit),(.address,utf8 ns.nodeID ++ port),(.idroot,idroot),
    (.clientSocketPath,utf8 ns.clientSocketAddress),(.serverSocketPath,utf8 ns.serverSocketAddress),
    (.podUuid,(utf8 req.podUid).take 8)]

theorem argsRead (idroot fsPvc f3Pvc : Bytes) :
    ∃ words, driverArgs ns req idroot fsPvc f3Pvc = driverPath :: words ∧
      Cxxopts.Reads Driver.Main.addOptions words (driverGiven ns req idroot)
        [globalmount fsPvc,globalmount f3Pvc] := by
  refine ⟨_,rfl,?_⟩
  apply Driver.Main.readsFlag .debug rfl
  apply Driver.Main.readsFlag .nocache rfl
  apply Driver.Main.readsFlag .single rfl
  apply Driver.Main.readsFlag .nosplice rfl
  apply Driver.Main.readsNext .address rfl
  apply Driver.Main.readsNext .idroot rfl
  apply Driver.Main.readsNext .clientSocketPath rfl
  apply Driver.Main.readsNext .serverSocketPath rfl
  apply Driver.Main.readsNext .podUuid rfl
  exact Driver.Main.readsPath _ (Driver.Main.readsPath _ .done)

def requested (m : Machine) (server : Bytes) (path f3Pvc : Bytes) (dev : Lib.Posix.Dev) : Session where
  fs := {address := utf8 ns.nodeID ++ port, idroot := server,
         clientUdsPath := utf8 ns.clientSocketAddress,
         serverFd := connectServer (m.setupConn (utf8 ns.serverSocketAddress)) 10 0,
         podUuid := (utf8 req.podUid).take 8, debug := true, nosplice := true, source := path}
  timeout := false
  srcDev := dev
  debugFuse := false
  mountpoint := globalmount f3Pvc
  single := true

end Command

theorem startedUid {n n' : Node} {req : PublishRequest} {host : Host}
    (ok : nodePublishVolume n req host = some n') (absent : n.fuseProcs req.volumeId = none)
    (stored : n'.fuseProcs req.volumeId ≠ none) : ¬ req.podUid.utf8ByteSize < 8 := by
  obtain ⟨outcome,-,ok⟩ := Option.bind_eq_some_iff.mp ok
  intro short
  cases outcome with
  | error reply =>
    cases Option.some.inj ok
    exact stored absent
  | ok =>
    simp only [publishLocked,absent,if_pos short] at ok
    cases ok

theorem driverConfigured {n n' : Node} {req : PublishRequest} {host : Host} (ns : Plugin)
    {server fsPvc f3Pvc : String} (ok : nodePublishVolume n req host = some n')
    (absent : n.fuseProcs req.volumeId = none) (stored : n'.fuseProcs req.volumeId ≠ none)
    (isF3 : getPVCName host.f3Pvc = some f3Pvc) (isFs : getPVCName host.fsPvc = some fsPvc)
    {m : Machine} (fs id : Volume Call)
    (resolved : m.realpath (globalmount (utf8 fsPvc)) = some (absolute fs.mount))
    (directory : m.lstat (absolute fs.mount) = some (true,fs.dev)) (sourceOpens : m.opens (absolute fs.mount))
    (idrootOpens : m.opens (utf8 server)) (fuse : m.sessionNew ∧ m.signalHandlers)
    (mounted : m.mounts (globalmount (utf8 f3Pvc))) :
    ∃ argv session, driverCommand ns req server host = some argv ∧ Driver.Main.main m argv = .ok session ∧
      session = requested ns req m (utf8 server) (absolute fs.mount) (utf8 f3Pvc) fs.dev ∧
      (Driver.boot ⟨utf8 server,utf8 ns.nodeID ++ port,false⟩ fs id).conf = session.config := by
  obtain ⟨words,same,reads⟩ := argsRead ns req (utf8 server) (utf8 fsPvc) (utf8 f3Pvc)
  refine ⟨driverPath :: words,_,?_,?_,rfl,rfl⟩
  · rw [← same]
    simp only [driverCommand,isF3,isFs,bind,Option.bind_some,if_neg (startedUid ok absent stored)]
  · exact Driver.Main.mainOfReads reads ⟨rfl,resolved,directory,sourceOpens,idrootOpens,fuse.1,fuse.2,mounted⟩

def dashedPlugin : Plugin := ⟨"--help","/c.sock","/s.sock"⟩

def dashedRequest : PublishRequest := ⟨true,"v","/t","--single"⟩

def agreeing : Machine where
  realpath := fun _ => some [47,115]
  setupConn := fun _ _ => 3
  lstat := fun _ => some (true,1)
  opens := fun _ => true
  sessionNew := true
  signalHandlers := true
  mounts := fun _ => true

def dashedHost : Host := ⟨.present,none,["fs"],.items ["f3"],.items ["fs"],.present,none⟩

def sourceVolume : Volume Call := Driver.emptyVolume 1 ⟨[115],Driver.okS⟩

def idVolume : Volume Call := Driver.emptyVolume 7 ⟨[105],Driver.okI⟩

theorem dashesConfigured : ∃ argv session,
    driverCommand dashedPlugin dashedRequest "-x" dashedHost = some argv ∧
    Driver.Main.main agreeing argv = .ok session ∧
    session = requested dashedPlugin dashedRequest agreeing (utf8 "-x") [47,115] (utf8 "f3") 1 ∧
    (Driver.boot ⟨utf8 "-x",utf8 "--help" ++ port,false⟩ sourceVolume idVolume).conf = session.config := by
  have ok : ∃ n, nodePublishVolume newNodeServer dashedRequest dashedHost = some n ∧
      n.fuseProcs dashedRequest.volumeId ≠ none := ⟨_,rfl,by decide⟩
  obtain ⟨n,ok,stored⟩ := ok
  exact driverConfigured dashedPlugin ok rfl stored rfl rfl sourceVolume idVolume rfl rfl rfl rfl
    ⟨rfl,rfl⟩ rfl

end F3.Csi
