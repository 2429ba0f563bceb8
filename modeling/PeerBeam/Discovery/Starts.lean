import PeerBeam.Devices.Store
import PeerBeam.Lib.FlaggedStart

/-! The life cycle of the providers that have to bind a socket or to register a service: advertising and scanning are
started behind a flag each, and stopped together. -/
namespace PeerBeam.Discovery
open Devices FlaggedStart TransitionRun

inductive DomainError
  | discovery (detail : String)
  deriving DecidableEq

inductive Side
  | advertise
  | scan
  deriving DecidableEq

abbrev Socket := ℕ

abbrev Binding := Except String Socket

inductive Task
  | recvLoop (sock : Socket)
  | advertiseLoop (sock : Socket)
  | reaperLoop
  deriving DecidableEq

namespace Task

def isRecvLoop : Task → Bool
  | recvLoop _ => true
  | _ => false

def isAdvertiseLoop : Task → Bool
  | advertiseLoop _ => true
  | _ => false

def isReaperLoop : Task → Bool
  | reaperLoop => true
  | _ => false

end Task

structure UdpDiscovery where
  selfDevice : Option Device
  socket : Option Socket
  tasks : List Task
  advertising : Bool
  scanning : Bool

namespace UdpDiscovery

def new : UdpDiscovery := ⟨none, none, [], false, false⟩

variable (s : UdpDiscovery)

def buildSocket : Binding → Except DomainError Socket
  | .ok sock => .ok sock
  | .error e => .error (.discovery ("udp socket: " ++ e))

/-- The socket is bound once, and its receive loop started with it. -/
def ensureSocket (binding : Binding) : Except DomainError Socket × UdpDiscovery :=
  match s.socket with
  | some sock => (.ok sock, s)
  | none =>
    match buildSocket binding with
    | .error e => (.error e, s)
    | .ok sock => (.ok sock, { s with tasks := s.tasks ++ [.recvLoop sock], socket := some sock })

def advertise (me : Device) (binding : Binding) : Except DomainError Unit × UdpDiscovery :=
  if s.advertising then (.ok (), s)
  else
    match ensureSocket { s with advertising := true, selfDevice := some me } binding with
    | (.error e, s) => (.error e, s)
    | (.ok sock, s) => (.ok (), { s with tasks := s.tasks ++ [.advertiseLoop sock] })

def scan (binding : Binding) : Except DomainError Unit × UdpDiscovery :=
  if s.scanning then (.ok (), s)
  else
    match ensureSocket { s with scanning := true } binding with
    | (.error e, s) => (.error e, s)
    | (.ok _, s) => (.ok (), { s with tasks := s.tasks ++ [.reaperLoop] })

def stop : UdpDiscovery := { s with advertising := false, scanning := false, tasks := [], socket := none }

def Attempt : Side → Type
  | .advertise => Device × Binding
  | .scan => Binding

/-- Advertising is the loop that announces; scanning takes the loop that hears and the one that reaps. -/
def machine : Machine UdpDiscovery Side Unit DomainError Attempt where
  start
    | .advertise, s, (me, binding) => s.advertise me binding
    | .scan, s, binding => s.scan binding
  stop s _ := s.stop
  flag
    | .advertise, s => s.advertising
    | .scan, s => s.scanning
  running
    | .advertise, s => s.tasks.any Task.isAdvertiseLoop
    | .scan, s => s.tasks.any Task.isReaperLoop && s.tasks.any Task.isRecvLoop

/-- Tasks run under their flags, and what needs the socket has it heard. -/
structure Fits : Prop where
  advertising : s.advertising = false → s.tasks.any Task.isAdvertiseLoop = false
  scanning : s.scanning = false → s.tasks.any Task.isReaperLoop = false
  listening : s.socket.isSome ∨ s.tasks.any Task.isReaperLoop = true → s.tasks.any Task.isRecvLoop = true

variable {s}

theorem ensureSocket_cases (binding : Binding) :
    (∃ e, s.ensureSocket binding = (.error e, s)) ∨
      ∃ sock listening, (listening = [] ∧ s.socket = some sock ∨ listening = [.recvLoop sock]) ∧
        s.ensureSocket binding =
          (.ok sock, { s with tasks := s.tasks ++ listening, socket := some sock }) := by
  rw [ensureSocket]
  split
  next sock bound =>
    refine .inr ⟨sock, [], .inl ⟨rfl, bound⟩, ?_⟩
    rw [List.append_nil, ← bound]
  next =>
    split
    next e _ => exact .inl ⟨e, rfl⟩
    next sock _ => exact .inr ⟨sock, [.recvLoop sock], .inr rfl, rfl⟩

theorem advertise_cases (down : s.advertising = false) (me : Device) (binding : Binding) :
    (∃ e, s.advertise me binding = (.error e, { s with advertising := true, selfDevice := some me })) ∨
      ∃ sock listening, (listening = [] ∧ s.socket = some sock ∨ listening = [.recvLoop sock]) ∧
        s.advertise me binding = (.ok (), { s with
          advertising := true
          selfDevice := some me
          tasks := s.tasks ++ listening ++ [.advertiseLoop sock]
          socket := some sock }) := by
  rw [advertise, if_neg (Bool.eq_false_iff.mp down)]
  rcases @ensureSocket_cases { s with advertising := true, selfDevice := some me } binding with
    ⟨e, failed⟩ | ⟨sock, listening, which, bound⟩
  · exact .inl ⟨e, by rw [failed]⟩
  · exact .inr ⟨sock, listening, which, by rw [bound]⟩

theorem scan_cases (down : s.scanning = false) (binding : Binding) :
    (∃ e, s.scan binding = (.error e, { s with scanning := true })) ∨
      ∃ sock listening, (listening = [] ∧ s.socket = some sock ∨ listening = [.recvLoop sock]) ∧
        s.scan binding = (.ok (), { s with
          scanning := true
          tasks := s.tasks ++ listening ++ [.reaperLoop]
          socket := some sock }) := by
  rw [scan, if_neg (Bool.eq_false_iff.mp down)]
  rcases @ensureSocket_cases { s with scanning := true } binding with ⟨e, failed⟩ | ⟨sock, listening, which, bound⟩
  · exact .inl ⟨e, by rw [failed]⟩
  · exact .inr ⟨sock, listening, which, by rw [bound]⟩

/-- Once the socket is bound, its receive loop runs. -/
theorem Fits.listens (h : s.Fits) {sock : Socket} {listening : List Task}
    (which : listening = [] ∧ s.socket = some sock ∨ listening = [.recvLoop sock]) (last : List Task) :
    (s.tasks ++ listening ++ last).any Task.isRecvLoop = true := by
  rw [List.any_append, List.any_append]
  rcases which with ⟨rfl, bound⟩ | rfl
  · rw [h.listening (.inl (Option.isSome_of_eq_some bound))]
    rfl
  · simp [Task.isRecvLoop]

theorem listening_quiet {sock : Socket} {bound : Prop} {listening : List Task}
    (which : listening = [] ∧ bound ∨ listening = [.recvLoop sock]) :
    listening.any Task.isAdvertiseLoop = false ∧ listening.any Task.isReaperLoop = false := by
  rcases which with ⟨rfl, -⟩ | rfl
  · exact ⟨rfl, rfl⟩
  · exact ⟨rfl, rfl⟩

/-- Where its flag is down, advertising is reported as it is, and scanning left alone. -/
theorem Fits.advertise_spec (h : s.Fits) (down : s.advertising = false) (me : Device) (binding : Binding) :
    let (result, s') := s.advertise me binding
    s'.Fits ∧ (s'.advertising = true ∧ s'.tasks.any Task.isAdvertiseLoop = result.isOk) ∧
      s'.scanning = s.scanning ∧ (s'.tasks.any Task.isReaperLoop && s'.tasks.any Task.isRecvLoop) =
        (s.tasks.any Task.isReaperLoop && s.tasks.any Task.isRecvLoop) := by
  rcases advertise_cases down me binding with ⟨e, failed⟩ | ⟨sock, listening, which, done⟩
  · rw [failed]
    exact ⟨⟨nofun, h.scanning, h.listening⟩, ⟨rfl, h.advertising down⟩, rfl, rfl⟩
  · rw [done]
    have reaps : (s.tasks ++ listening ++ [Task.advertiseLoop sock]).any Task.isReaperLoop =
        s.tasks.any Task.isReaperLoop := by simp [(listening_quiet which).2, Task.isReaperLoop]
    refine ⟨⟨nofun, fun down => reaps.trans (h.scanning down), fun _ => h.listens which _⟩, ⟨rfl, ?_⟩, rfl, ?_⟩
    · rw [List.any_append]
      exact Bool.or_true _
    · rw [h.listens which, reaps, Bool.and_true]
      cases reaping : s.tasks.any Task.isReaperLoop with
      | true => rw [h.listening (.inr reaping)]; rfl
      | false => rfl

theorem Fits.scan_spec (h : s.Fits) (down : s.scanning = false) (binding : Binding) :
    let (result, s') := s.scan binding
    s'.Fits ∧ (s'.scanning = true ∧
        (s'.tasks.any Task.isReaperLoop && s'.tasks.any Task.isRecvLoop) = result.isOk) ∧
      s'.advertising = s.advertising ∧ s'.tasks.any Task.isAdvertiseLoop = s.tasks.any Task.isAdvertiseLoop := by
  rcases scan_cases down binding with ⟨e, failed⟩ | ⟨sock, listening, which, done⟩
  · rw [failed]
    refine ⟨⟨h.advertising, nofun, h.listening⟩, ⟨rfl, ?_⟩, rfl, rfl⟩
    rw [h.scanning down]
    rfl
  · rw [done]
    have advertises : (s.tasks ++ listening ++ [Task.reaperLoop]).any Task.isAdvertiseLoop =
        s.tasks.any Task.isAdvertiseLoop := by simp [(listening_quiet which).1, Task.isAdvertiseLoop]
    refine ⟨⟨fun down => advertises.trans (h.advertising down), nofun, fun _ => h.listens which _⟩, ⟨rfl, ?_⟩,
      rfl, advertises⟩
    rw [h.listens which, Bool.and_true, List.any_append]
    exact Bool.or_true _

theorem guarded : machine.Guarded Fits where
  up
    | .advertise, _, _, up => if_pos up
    | .scan, _, _, up => if_pos up
  down
    | .advertise, _, (me, binding), fits, down => (fits.advertise_spec down me binding).2.1
    | .scan, _, binding, fits, down => (fits.scan_spec down binding).2.1
  others
    | .advertise, .scan, _, (me, binding), fits, down, _ => (fits.advertise_spec down me binding).2.2
    | .scan, .advertise, _, binding, fits, down, _ => (fits.scan_spec down binding).2.2
    | .advertise, .advertise, _, _, _, _, apart => absurd rfl apart
    | .scan, .scan, _, _, _, _, apart => absurd rfl apart
  fits_down
    | .advertise, _, (me, binding), fits, down => (fits.advertise_spec down me binding).1
    | .scan, _, binding, fits, down => (fits.scan_spec down binding).1
  stopped
    | .advertise, _, _ => ⟨rfl, rfl⟩
    | .scan, _, _ => ⟨rfl, rfl⟩
  fits_stop _ _ _ := ⟨fun _ => rfl, fun _ => rfl, fun needed => by cases needed <;> contradiction⟩

theorem fits_new : new.Fits := ⟨fun _ => rfl, fun _ => rfl, fun needed => by cases needed <;> contradiction⟩

end UdpDiscovery

/-- The daemon of the machine: the names of the services it announces, and whether it browses. -/
structure ServiceDaemon where
  services : List String
  browsing : Bool

abbrev Receiver := ℕ

/-- What comes of making the service, which gives it its full name, and of registering it. -/
structure Registration where
  serviceInfo : Except String String
  register : Except String Unit

abbrev Browsing := Except String Receiver

/-- Which of the daemon's answers to a stop are errors; nobody looks at them. -/
structure Stopping where
  unregister : Bool
  stopBrowse : Bool

structure MdnsDiscovery where
  daemon : ServiceDaemon
  registered : Option String
  /-- Each reads what a browse receives. -/
  tasks : List Receiver
  advertising : Bool
  scanning : Bool

namespace MdnsDiscovery

def new (daemon : ServiceDaemon) : MdnsDiscovery := ⟨daemon, none, [], false, false⟩

variable (s : MdnsDiscovery)

def advertise (r : Registration) : Except DomainError Unit × MdnsDiscovery :=
  if s.advertising then (.ok (), s)
  else
    let s := { s with advertising := true }
    match r.serviceInfo with
    | .error e => (.error (.discovery ("mdns service info: " ++ e)), s)
    | .ok fullname =>
      match r.register with
      | .error e => (.error (.discovery ("mdns register: " ++ e)), s)
      | .ok () => (.ok (), { s with
          daemon := { s.daemon with services := fullname :: s.daemon.services }
          registered := some fullname })

def scan (b : Browsing) : Except DomainError Unit × MdnsDiscovery :=
  if s.scanning then (.ok (), s)
  else
    let s := { s with scanning := true }
    match b with
    | .error e => (.error (.discovery ("mdns browse: " ++ e)), s)
    | .ok receiver => (.ok (), { s with
        daemon := { s.daemon with browsing := true }
        tasks := s.tasks ++ [receiver] })

def stop (answers : Stopping) : MdnsDiscovery where
  daemon :=
    { services := if answers.unregister then s.daemon.services
        else s.daemon.services.filter fun fullname => s.registered ≠ some fullname
      browsing := s.daemon.browsing && answers.stopBrowse }
  registered := none
  tasks := []
  advertising := false
  scanning := false

def Attempt : Side → Type
  | .advertise => Registration
  | .scan => Browsing

/-- Advertising is a service of this provider that the daemon announces; scanning is a browse that is read. -/
def machine : Machine MdnsDiscovery Side Stopping DomainError Attempt where
  start
    | .advertise, s, r => s.advertise r
    | .scan, s, b => s.scan b
  stop := stop
  flag
    | .advertise, s => s.advertising
    | .scan, s => s.scanning
  running
    | .advertise, s => s.registered.any (· ∈ s.daemon.services)
    | .scan, s => !s.tasks.isEmpty && s.daemon.browsing

structure Fits : Prop where
  advertising : s.advertising = false → s.registered = none
  scanning : s.scanning = false → s.tasks = []

variable {s}

theorem advertise_cases (down : s.advertising = false) (r : Registration) :
    (∃ e, s.advertise r = (.error e, { s with advertising := true })) ∨
      ∃ fullname, s.advertise r = (.ok (), { s with
        advertising := true
        daemon := { s.daemon with services := fullname :: s.daemon.services }
        registered := some fullname }) := by
  rw [advertise, if_neg (Bool.eq_false_iff.mp down)]
  cases r.serviceInfo with
  | error e => exact .inl ⟨_, rfl⟩
  | ok fullname =>
    cases r.register with
    | error e => exact .inl ⟨_, rfl⟩
    | ok _ => exact .inr ⟨fullname, rfl⟩

theorem scan_cases (down : s.scanning = false) (b : Browsing) :
    (∃ e, s.scan b = (.error e, { s with scanning := true })) ∨
      ∃ receiver, s.scan b = (.ok (), { s with
        scanning := true
        daemon := { s.daemon with browsing := true }
        tasks := s.tasks ++ [receiver] }) := by
  rw [scan, if_neg (Bool.eq_false_iff.mp down)]
  cases b with
  | error e => exact .inl ⟨_, rfl⟩
  | ok receiver => exact .inr ⟨receiver, rfl⟩

theorem Fits.advertise_spec (h : s.Fits) (down : s.advertising = false) (r : Registration) :
    let (result, s') := s.advertise r
    s'.Fits ∧ (s'.advertising = true ∧ s'.registered.any (· ∈ s'.daemon.services) = result.isOk) ∧
      s'.scanning = s.scanning ∧
        (!s'.tasks.isEmpty && s'.daemon.browsing) = (!s.tasks.isEmpty && s.daemon.browsing) := by
  rcases advertise_cases down r with ⟨e, failed⟩ | ⟨fullname, done⟩
  · rw [failed]
    refine ⟨⟨nofun, h.scanning⟩, ⟨rfl, ?_⟩, rfl, rfl⟩
    rw [h.advertising down]
    rfl
  · rw [done]
    exact ⟨⟨nofun, h.scanning⟩, ⟨rfl, decide_eq_true List.mem_cons_self⟩, rfl, rfl⟩

theorem Fits.scan_spec (h : s.Fits) (down : s.scanning = false) (b : Browsing) :
    let (result, s') := s.scan b
    s'.Fits ∧ (s'.scanning = true ∧ (!s'.tasks.isEmpty && s'.daemon.browsing) = result.isOk) ∧
      s'.advertising = s.advertising ∧
        s'.registered.any (· ∈ s'.daemon.services) = s.registered.any (· ∈ s.daemon.services) := by
  rcases scan_cases down b with ⟨e, failed⟩ | ⟨receiver, done⟩
  · rw [failed]
    refine ⟨⟨h.advertising, nofun⟩, ⟨rfl, ?_⟩, rfl, rfl⟩
    rw [h.scanning down]
    rfl
  · rw [done]
    refine ⟨⟨h.advertising, nofun⟩, ⟨rfl, ?_⟩, rfl, rfl⟩
    cases s.tasks with
    | nil => rfl
    | cons _ _ => rfl

theorem guarded : machine.Guarded Fits where
  up
    | .advertise, _, _, up => if_pos up
    | .scan, _, _, up => if_pos up
  down
    | .advertise, _, r, fits, down => (fits.advertise_spec down r).2.1
    | .scan, _, b, fits, down => (fits.scan_spec down b).2.1
  others
    | .advertise, .scan, _, r, fits, down, _ => (fits.advertise_spec down r).2.2
    | .scan, .advertise, _, b, fits, down, _ => (fits.scan_spec down b).2.2
    | .advertise, .advertise, _, _, _, _, apart => absurd rfl apart
    | .scan, .scan, _, _, _, _, apart => absurd rfl apart
  fits_down
    | .advertise, _, r, fits, down => (fits.advertise_spec down r).1
    | .scan, _, b, fits, down => (fits.scan_spec down b).1
  stopped
    | .advertise, _, _ => ⟨rfl, rfl⟩
    | .scan, _, _ => ⟨rfl, rfl⟩
  fits_stop _ _ _ := ⟨fun _ => rfl, fun _ => rfl⟩

theorem fits_new (daemon : ServiceDaemon) : (new daemon).Fits := ⟨fun _ => rfl, fun _ => rfl⟩

end MdnsDiscovery

/-- After every call of a run what has been reported to be on is on if and only if no call starts what has its flag up
with nothing running. -/
theorem reported_runs_iff (daemon : ServiceDaemon) :
    (∀ calls, Along UdpDiscovery.machine.step (fun r c => UdpDiscovery.machine.Sound (UdpDiscovery.machine.step r c))
        ⟨.new, fun _ => false⟩ calls ↔
      Along UdpDiscovery.machine.step UdpDiscovery.machine.Free ⟨.new, fun _ => false⟩ calls) ∧
    ∀ calls,
      Along MdnsDiscovery.machine.step (fun r c => MdnsDiscovery.machine.Sound (MdnsDiscovery.machine.step r c))
        ⟨.new daemon, fun _ => false⟩ calls ↔
      Along MdnsDiscovery.machine.step MdnsDiscovery.machine.Free ⟨.new daemon, fun _ => false⟩ calls :=
  ⟨fun calls => UdpDiscovery.guarded.sound_along_iff UdpDiscovery.fits_new calls,
    fun calls => MdnsDiscovery.guarded.sound_along_iff (MdnsDiscovery.fits_new daemon) calls⟩

/-- A start that failed is not made again: whoever asks is told that it has worked, and nothing runs. -/
theorem failed_start_not_retried :
    (∀ (side : Side) (s : UdpDiscovery) (a a' : UdpDiscovery.Attempt side), s.Fits →
      (UdpDiscovery.machine.start side s a).1.isOk = false →
        let after := (UdpDiscovery.machine.start side s a).2
        UdpDiscovery.machine.start side after a' = (.ok (), after) ∧
          UdpDiscovery.machine.running side after = false) ∧
    ∀ (side : Side) (s : MdnsDiscovery) (a a' : MdnsDiscovery.Attempt side), s.Fits →
      (MdnsDiscovery.machine.start side s a).1.isOk = false →
        let after := (MdnsDiscovery.machine.start side s a).2
        MdnsDiscovery.machine.start side after a' = (.ok (), after) ∧
          MdnsDiscovery.machine.running side after = false :=
  ⟨fun _ _ _ a' fits failed => UdpDiscovery.guarded.retry fits failed a',
    fun _ _ _ a' fits failed => MdnsDiscovery.guarded.retry fits failed a'⟩

private def thisDevice : Device := ⟨"pb-me", "Desk", .desktop, .linux, ["10.0.0.7"], 49500, 0⟩

/-- The port is taken, or the daemon does not register: the next call is told that all is well. -/
theorem failed_start_trusted :
    ¬ Along UdpDiscovery.machine.step (fun r c => UdpDiscovery.machine.Sound (UdpDiscovery.machine.step r c))
        ⟨.new, fun _ => false⟩
        [.start .advertise (thisDevice, .error "in use"), .start .advertise (thisDevice, .ok 1)] ∧
      ¬ Along MdnsDiscovery.machine.step (fun r c => MdnsDiscovery.machine.Sound (MdnsDiscovery.machine.step r c))
        ⟨.new ⟨[], false⟩, fun _ => false⟩
        [.start .advertise ⟨.ok "PeerBeam-pb-me._peerbeam._tcp.local.", .error "closed"⟩,
          .start .advertise ⟨.ok "PeerBeam-pb-me._peerbeam._tcp.local.", .ok ()⟩] := by
  constructor
  · intro ⟨_, second, _⟩
    cases second .advertise rfl
  · intro ⟨_, second, _⟩
    cases second .advertise rfl

end PeerBeam.Discovery
