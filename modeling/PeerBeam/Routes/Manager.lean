import PeerBeam.Lib.Neighbours
import PeerBeam.Devices.Store
import PeerBeam.Transfer.Basic

/-! The routes to a peer, best first, and the dial that fails over from one to the next. -/
namespace PeerBeam.Routes
open Devices (Device)
open Transfer (DomainError)

/-- A class of network path to a peer. -/
inductive RouteKind
  | lan
  | usbTether
  | ethernet
  | wifi
  | tailscaleDirect
  | directInternet
  | relay
  deriving DecidableEq, Repr

/-- Its place in the order of preference, the best first. -/
def RouteKind.rank : RouteKind → ℕ
  | lan => 0
  | usbTether => 1
  | ethernet => 2
  | wifi => 3
  | tailscaleDirect => 4
  | directInternet => 5
  | relay => 6

theorem RouteKind.rank_inj {a b : RouteKind} (same : a.rank = b.rank) : a = b := by
  cases a <;> cases b <;> first | rfl | cases same

/-- A concrete candidate path to a peer. -/
structure Route where
  kind : RouteKind
  address : String
  port : UInt16
  deriving DecidableEq, Repr

def compareRoutes (a b : Route) : Ordering :=
  (compare a.kind.rank b.kind.rank).then (compare a.address b.address)

instance : Std.TransCmp compareRoutes :=
  inferInstanceAs (Std.TransCmp (compareLex (compareOn fun route : Route => route.kind.rank)
    (compareOn fun route : Route => route.address)))

/-- The ports may differ. -/
theorem compareRoutes_eq_iff {a b : Route} :
    compareRoutes a b = .eq ↔ a.kind = b.kind ∧ a.address = b.address := by
  rw [compareRoutes, Ordering.then_eq_eq, compare_eq_iff_eq, compare_eq_iff_eq]
  exact and_congr_left' ⟨RouteKind.rank_inj, congrArg RouteKind.rank⟩

theorem rank_le_of_compareRoutes {a b : Route} (le : (compareRoutes a b).isLE = true) :
    a.kind.rank ≤ b.kind.rank := by
  by_contra after
  have gt : compare a.kind.rank b.kind.rank = .gt := Nat.compare_eq_gt.mpr (by omega)
  rw [compareRoutes, gt] at le
  cases le

abbrev Dialler (Link : Type) := List Route → Route → Except DomainError Link

structure RouteManager (Session Link : Type) where
  transport : Session → Dialler Link
  classify : String → RouteKind
  /-- The last resorts, as they are configured. -/
  relays : List Route

structure Connected (Link : Type) where
  result : Except DomainError Link
  dialled : List Route

def failOver {Link : Type} (dial : Dialler Link) (name : String) (lastErr : Option DomainError) (tried : List Route) :
    List Route → Connected Link
  | [] => ⟨.error (lastErr.getD (.connection s!"all routes to {name} failed")), tried⟩
  | route :: rest =>
    match dial tried route with
    | .ok link => ⟨.ok link, tried ++ [route]⟩
    | .error e => failOver dial name (some e) (tried ++ [route]) rest

namespace RouteManager
variable {Session Link : Type} (m : RouteManager Session Link) (peer : Device)

def routes : List Route :=
  ((peer.addresses.filter fun address => !address.isEmpty).map fun address =>
    { kind := m.classify address, address, port := peer.port }) ++ m.relays

def candidates : List Route := Neighbours.dedup (Ranked.sort compareRoutes (m.routes peer))

def connect (session : Session) : Connected Link :=
  match m.candidates peer with
  | [] => ⟨.error (.connection s!"no routes to {peer.name}"), []⟩
  | route :: rest => failOver (m.transport session) peer.name none [] (route :: rest)

end RouteManager

section
variable {Session Link : Type} (m : RouteManager Session Link) (peer : Device)

theorem mem_routes (route : Route) :
    route ∈ m.routes peer ↔
      (∃ address ∈ peer.addresses, address ≠ "" ∧ route = ⟨m.classify address, address, peer.port⟩) ∨
        route ∈ m.relays := by
  rw [RouteManager.routes, List.mem_append, List.mem_map]
  refine or_congr_left ⟨?_, ?_⟩
  · intro ⟨address, mem, same⟩
    obtain ⟨mem, full⟩ := List.mem_filter.mp mem
    exact ⟨address, mem, by simpa using full, same.symm⟩
  · intro ⟨address, mem, full, same⟩
    exact ⟨address, List.mem_filter.mpr ⟨mem, by simpa using full⟩, same.symm⟩

theorem mem_candidates (route : Route) : route ∈ m.candidates peer ↔ route ∈ m.routes peer :=
  Neighbours.mem_dedup.trans (Ranked.perm_sort _).mem_iff

theorem candidates_ranked : (m.candidates peer).Pairwise fun a b => a.kind.rank ≤ b.kind.rank := by
  have sorted : Ranked.Sorted compareRoutes (m.candidates peer) :=
    (Ranked.sorted_sort (m.routes peer)).sublist (Neighbours.dedup_sublist _)
  exact sorted.imp rank_le_of_compareRoutes

/-- A route comes twice exactly when another port of its address keeps its copies apart. -/
theorem nodup_candidates_iff :
    (m.candidates peer).Nodup ↔
      ∀ a b, a.kind = b.kind → a.address = b.address → [a, b, a].Sublist (m.routes peer) → a = b := by
  rw [RouteManager.candidates, Neighbours.nodup_dedup_iff, Neighbours.grouped_sort_iff]
  simp only [compareRoutes_eq_iff, and_imp]

/-- The peer's own addresses come once each, since they share its port. -/
theorem nodup_candidates_of_direct (direct : m.relays = []) : (m.candidates peer).Nodup := by
  refine (nodup_candidates_iff m peer).mpr fun a b kinds addresses there => ?_
  have own : ∀ route ∈ [a, b, a], route.port = peer.port := by
    intro route mem
    rcases (mem_routes m peer route).mp (there.subset mem) with ⟨address, -, -, rfl⟩ | mem
    · rfl
    · rw [direct] at mem
      exact absurd mem List.not_mem_nil
  have ports : a.port = b.port := (own a (by simp)).trans (own b (by simp)).symm
  cases a
  cases b
  cases kinds
  cases addresses
  cases ports
  rfl

end

section
variable {Link : Type} {dial : Dialler Link}

inductive Failed (dial : Dialler Link) : List Route → Option DomainError → Prop
  | nil : Failed dial [] none
  | concat {tried : List Route} {lastErr : Option DomainError} {route : Route} {e : DomainError}
      (before : Failed dial tried lastErr) (down : dial tried route = .error e) :
      Failed dial (tried ++ [route]) (some e)

/-- Each of them failed when its turn came. -/
theorem Failed.down {routes : List Route} {lastErr : Option DomainError} (h : Failed dial routes lastErr)
    {before after : List Route} {route : Route} (split : routes = before ++ route :: after) :
    ∃ e, dial before route = .error e := by
  induction h generalizing after with
  | nil => simp at split
  | @concat tried _ last e _ down ih =>
    rcases List.eq_nil_or_concat after with rfl | ⟨after, final, rfl⟩
    · obtain ⟨rfl, same⟩ := List.append_inj' split rfl
      cases same
      exact ⟨e, down⟩
    · have split' : tried ++ [last] = (before ++ route :: after) ++ [final] := by simpa using split
      exact ih (List.append_inj' split' rfl).1

/-- How dialling `routes` in their order ends. -/
inductive Dialled (dial : Dialler Link) (routes : List Route) (noRoutes : DomainError) : Connected Link → Prop
  | selected {before after : List Route} {route : Route} {lastErr : Option DomainError} {link : Link}
      (split : routes = before ++ route :: after) (failed : Failed dial before lastErr)
      (up : dial before route = .ok link) : Dialled dial routes noRoutes ⟨.ok link, before ++ [route]⟩
  | refused {lastErr : Option DomainError} (failed : Failed dial routes lastErr) :
      Dialled dial routes noRoutes ⟨.error (lastErr.getD noRoutes), routes⟩

theorem failOver_dialled (name : String) (noRoutes : DomainError) {tried : List Route} {lastErr : Option DomainError}
    (failed : Failed dial tried lastErr) (rest : List Route) (nonempty : tried ++ rest ≠ []) :
    Dialled dial (tried ++ rest) noRoutes (failOver dial name lastErr tried rest) := by
  induction rest generalizing tried lastErr with
  | nil =>
    rw [List.append_nil] at nonempty ⊢
    cases failed with
    | nil => exact absurd rfl nonempty
    | concat before down => exact .refused (before.concat down)
  | cons route rest ih =>
    rw [failOver]
    cases up : dial tried route with
    | ok link => exact .selected rfl failed up
    | error e =>
      have there := ih (failed.concat up) (by simp)
      rwa [List.append_assoc, List.singleton_append] at there

end

section
variable {Session Link : Type} (m : RouteManager Session Link) (peer : Device)

theorem connect_dialled (session : Session) :
    Dialled (m.transport session) (m.candidates peer) (.connection s!"no routes to {peer.name}")
      (m.connect peer session) := by
  unfold RouteManager.connect
  cases m.candidates peer with
  | nil => exact .refused .nil
  | cons route rest => exact failOver_dialled peer.name _ .nil (route :: rest) (List.cons_ne_nil _ _)

/-- A connect dials the candidates in their order up to the first that answers, none of them twice. -/
structure Tries (dial : Dialler Link) (candidates : List Route) (connected : Connected Link) : Prop where
  ordered : connected.dialled <+: candidates
  once : connected.dialled.Nodup
  linked : ∀ link, connected.result = .ok link →
    ∃ before route lastErr, connected.dialled = before ++ [route] ∧ Failed dial before lastErr ∧
      dial before route = .ok link
  failed : (∃ e, connected.result = .error e) ↔ ∃ lastErr, Failed dial candidates lastErr
  exhausted : ∀ e, connected.result = .error e → connected.dialled = candidates

theorem Dialled.tries {dial : Dialler Link} {routes : List Route} {noRoutes : DomainError} {connected : Connected Link}
    (h : Dialled dial routes noRoutes connected) (distinct : routes.Nodup) : Tries dial routes connected := by
  cases h with
  | @selected before after route lastErr link split failed up =>
    have ordered : before ++ [route] <+: routes := ⟨after, by rw [split, List.append_assoc, List.singleton_append]⟩
    refine ⟨ordered, distinct.sublist ordered.sublist, fun link' same => ?_, ?_, fun e same => (nomatch same)⟩
    · exact ⟨before, route, lastErr, rfl, failed, up.trans same⟩
    · refine iff_of_false (fun ⟨e, same⟩ => nomatch same) fun ⟨last, all⟩ => ?_
      obtain ⟨e, down⟩ := all.down split
      cases up.symm.trans down
  | @refused lastErr failed =>
    exact ⟨List.prefix_rfl, distinct, fun link same => (nomatch same), iff_of_true ⟨_, rfl⟩ ⟨lastErr, failed⟩,
      fun _ _ => rfl⟩

/-- The candidates are complete, ranked and distinct, and a connect fails over along them. -/
structure Selects : Prop where
  complete : ∀ route, route ∈ m.candidates peer ↔
    (∃ address ∈ peer.addresses, address ≠ "" ∧ route = ⟨m.classify address, address, peer.port⟩) ∨ route ∈ m.relays
  ranked : (m.candidates peer).Pairwise fun a b => a.kind.rank ≤ b.kind.rank
  distinct : (m.candidates peer).Nodup
  tries : ∀ session, Tries (m.transport session) (m.candidates peer) (m.connect peer session)

/-- All of it depends on no route coming back after another port of its address. -/
theorem selects_iff :
    Selects m peer ↔
      ∀ a b, a.kind = b.kind → a.address = b.address → [a, b, a].Sublist (m.routes peer) → a = b := by
  rw [← nodup_candidates_iff]
  constructor
  · intro h
    exact h.distinct
  · intro distinct
    exact ⟨fun route => (mem_candidates m peer route).trans (mem_routes m peer route), candidates_ranked m peer, distinct,
      fun session => (connect_dialled m peer session).tries distinct⟩

end

private def relayAt (port : UInt16) : Route := ⟨.relay, "r", port⟩

private def relayed : RouteManager Unit Unit :=
  ⟨fun _ _ _ => .error (.connection "down"), fun _ => .directInternet, [relayAt 1, relayAt 2, relayAt 1]⟩

private def addressless : Device := ⟨"peer", "Peer", .laptop, .linux, [], 1, 0⟩

private theorem candidates_relayed : relayed.candidates addressless = [relayAt 1, relayAt 2, relayAt 1] := by
  have sorted : Ranked.sort compareRoutes (relayed.routes addressless) = [relayAt 1, relayAt 2, relayAt 1] :=
    List.mergeSort_of_pairwise (by decide)
  rw [RouteManager.candidates, sorted]
  decide

/-- One relay is dialled again after another port of its address. -/
theorem relay_dialled_twice :
    (∀ relay ∈ relayed.relays, relay.kind = .relay) ∧
      (relayed.connect addressless ()).dialled = [relayAt 1, relayAt 2, relayAt 1] ∧
      ¬ Selects relayed addressless := by
  refine ⟨by decide, ?_, fun h => ?_⟩
  · rw [RouteManager.connect, candidates_relayed]
    rfl
  · have distinct := h.distinct
    rw [candidates_relayed] at distinct
    exact absurd distinct (by decide)

end PeerBeam.Routes
