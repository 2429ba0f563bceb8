import PeerBeam.Chat.Reads
import PeerBeam.Chat.SearchText
import PeerBeam.Lib.FirstSeen
import PeerBeam.Lib.Ranked

/-! What a search of all conversations is to give, and where it does. The window that is shown of a field begins
before the match, so that a long match may end outside of it. -/
namespace PeerBeam.Chat

namespace Search
variable (lower : Char → List Char) (needle field : List Char)

/-- In lower case the field has the needle, from one of its characters on. A blank is in no field. -/
def Contains : Prop := needle ≠ [] ∧ ∃ position, needle <+: fold lower (field.drop position)

structure FirstMatch (position : Nat) (matched : List Char) : Prop where
  begins : matched <+: field.drop position
  reads : needle <+: fold lower matched
  shortest : ∀ other, other <+: field.drop position → needle <+: fold lower other → matched.length ≤ other.length
  first : ∀ earlier, needle <+: fold lower (field.drop earlier) → position ≤ earlier

/-- A short part of the field, with the whole match wherever that is short as well. -/
structure SnippetFor (snippet : List Char) : Prop where
  part : snippet <:+: field
  short : snippet.length ≤ snippetChars
  whole : ∀ position matched, FirstMatch lower needle field position matched → matched.length ≤ snippetChars →
    matched <:+: snippet

/-- A match that is short ends in the window, too. -/
def Fits : Prop :=
  ∀ position matched, FirstMatch lower needle field position matched → matched.length ≤ snippetChars →
    min snippetLead position + matched.length ≤ snippetChars

variable {lower needle field}

theorem findFolded_eq_some {position : Nat} (found : findFolded lower field needle = some position) :
    needle ≠ [] ∧ needle <+: fold lower (field.drop position) ∧
      ∀ earlier, needle <+: fold lower (field.drop earlier) → position ≤ earlier := by
  rw [findFolded] at found
  split at found
  next => cases found
  next some_ =>
    obtain ⟨met, _, before⟩ := List.find?_range_eq_some.mp found
    refine ⟨some_, List.isPrefixOf_iff_prefix.mp met, fun earlier met' => ?_⟩
    by_contra less
    have missed := before earlier (Nat.not_le.mp less)
    rw [foldedStartsWith, List.isPrefixOf_iff_prefix.mpr met'] at missed
    cases missed

theorem contains_iff : Contains lower needle field ↔ (findFolded lower field needle).isSome := by
  constructor
  · rintro ⟨some_, position, met⟩
    rw [findFolded, if_neg some_, List.find?_isSome]
    refine ⟨position, List.mem_range.mpr ?_, List.isPrefixOf_iff_prefix.mpr met⟩
    by_contra outside
    rw [List.drop_of_length_le (Nat.not_lt.mp outside)] at met
    exact some_ (List.prefix_nil.mp met)
  · intro found
    obtain ⟨position, found⟩ := Option.isSome_iff_exists.mp found
    obtain ⟨some_, met, _⟩ := findFolded_eq_some found
    exact ⟨some_, position, met⟩

theorem fold_mono {text text' : List Char} (h : text <+: text') : fold lower text <+: fold lower text' := by
  obtain ⟨rest, rfl⟩ := h
  rw [fold, fold, List.flatMap_append]
  exact List.prefix_append _ _

theorem FirstMatch.position_eq {position position' : Nat} {matched : List Char}
    (h : FirstMatch lower needle field position matched)
    (met : needle <+: fold lower (field.drop position'))
    (first : ∀ earlier, needle <+: fold lower (field.drop earlier) → position' ≤ earlier) : position = position' :=
  Nat.le_antisymm (h.first position' met) (first position (h.reads.trans (fold_mono h.begins)))

/-- The window has the match where it has room for it after the lead. -/
theorem infix_window_iff {position : Nat} {matched : List Char}
    (h : FirstMatch lower needle field position matched) :
    matched <:+: (field.drop (position - snippetLead)).take snippetChars ↔
      min snippetLead position + matched.length ≤ snippetChars := by
  have lead : position - snippetLead + min snippetLead position = position := by omega
  constructor
  · rintro ⟨before, after, window⟩
    have here : matched <+: field.drop (position - snippetLead + before.length) := by
      rw [← List.drop_drop]
      have start : before ++ matched <+: field.drop (position - snippetLead) :=
        calc
          before ++ matched <+: before ++ matched ++ after := List.prefix_append _ _
          _ = (field.drop (position - snippetLead)).take snippetChars := window
          _ <+: field.drop (position - snippetLead) := List.take_prefix _ _
      obtain ⟨rest, same⟩ := start
      rw [← same, List.append_assoc, List.drop_left]
      exact List.prefix_append _ _
    -- nothing before the position reads as the needle
    have behind := h.first _ (h.reads.trans (fold_mono here))
    have size := congrArg List.length window
    rw [List.length_append, List.length_append] at size
    have bound := List.length_take_le snippetChars (field.drop (position - snippetLead))
    omega
  · intro room
    obtain ⟨rest, begins⟩ := h.begins
    have window : ((field.drop (position - snippetLead)).take snippetChars).drop (min snippetLead position) =
        (field.drop position).take (snippetChars - min snippetLead position) := by
      rw [List.drop_take, List.drop_drop, lead]
    have there : matched <+: ((field.drop (position - snippetLead)).take snippetChars).drop
        (min snippetLead position) := by
      rw [window, ← begins, List.take_append, List.take_of_length_le (by omega)]
      exact List.prefix_append _ _
    exact there.isInfix.trans (List.drop_suffix _ _).isInfix

theorem snippetFor_window_iff {position : Nat} (found : findFolded lower field needle = some position) :
    SnippetFor lower needle field ((field.drop (position - snippetLead)).take snippetChars) ↔
      Fits lower needle field := by
  obtain ⟨_, met, first⟩ := findFolded_eq_some found
  constructor
  · intro snippet position' matched h short
    cases h.position_eq met first
    exact (infix_window_iff h).mp (snippet.whole _ matched h short)
  · intro fits
    refine ⟨?_, List.length_take_le _ _, fun position' matched h short => ?_⟩
    · exact (List.take_prefix _ _).isInfix.trans (List.drop_suffix _ _).isInfix
    · cases h.position_eq met first
      exact (infix_window_iff h).mpr (fits _ matched h short)

section
variable (c : Chrono) (lower : Char → List Char) (needle : List Char)

def MatchedField (rec : ChatRecord) (field : String) : Prop :=
  (Contains lower needle rec.body.toList ∧ field = rec.body) ∨
    (¬ Contains lower needle rec.body.toList ∧ ∃ file, rec.file = some file ∧
      Contains lower needle file.name.toList ∧ field = file.name)

open Classical in
noncomputable def answers (rows : List (DeviceId × ChatRecord)) : List (DeviceId × ChatRecord) :=
  rows.filter fun row => decide (∃ field, MatchedField lower needle row.2 field)

/-- The hit tells of the row, with a part of the field that was matched. -/
structure HitFor (row : DeviceId × ChatRecord) (hit : SearchHit) : Prop where
  peerId : hit.peerId = row.1
  messageId : hit.messageId = row.2.id
  timestamp : hit.timestamp = row.2.timestamp
  instant : hit.instant = row.2.ageBasis c
  direction : hit.direction = row.2.direction
  kind : hit.kind = row.2.kind
  group : hit.group = row.2.group
  snippet : ∃ field, MatchedField lower needle row.2 field ∧
    SnippetFor lower needle field.toList hit.snippet.toList

def newestFirst (row row' : DeviceId × ChatRecord) : Ordering :=
  (compare ((row'.2.ageBasis c).getD c.minUtc) ((row.2.ageBasis c).getD c.minUtc)).then
    ((compare row.1 row'.1).then (compare row.2.id row'.2.id))

def groupId (row : DeviceId × ChatRecord) : Option String := if row.2.group.isSome then some row.2.id else none

def distinctRows (rows : List (DeviceId × ChatRecord)) : List (DeviceId × ChatRecord) :=
  FirstSeen.keep groupId [] rows

noncomputable def bestRows (rows : List (DeviceId × ChatRecord)) (limit : Nat) : List (DeviceId × ChatRecord) :=
  (Ranked.sort (newestFirst c) (answers lower needle (distinctRows rows))).take limit

/-- The results are the hits for these rows, and say whether rows were left out. -/
structure Answered (rows : List (DeviceId × ChatRecord)) (limit : Nat) (found : SearchResults) : Prop where
  hits : List.Forall₂ (HitFor c lower needle) (bestRows c lower needle rows limit) found.hits
  truncated : found.truncated = true ↔ limit < (answers lower needle (distinctRows rows)).length

end

section
variable {c : Chrono} {lower : Char → List Char} {needle : List Char}

theorem mem_answers {rows : List (DeviceId × ChatRecord)} {row : DeviceId × ChatRecord} :
    row ∈ answers lower needle rows ↔ row ∈ rows ∧ ∃ field, MatchedField lower needle row.2 field := by
  classical
  rw [answers, List.mem_filter, decide_eq_true_iff]

def hitOf (c : Chrono) (lower : Char → List Char) (needle : List Char) (row : DeviceId × ChatRecord) : SearchHit where
  peerId := row.1
  messageId := row.2.id
  timestamp := row.2.timestamp
  instant := row.2.ageBasis c
  direction := row.2.direction
  kind := row.2.kind
  snippet := ((snippetOf lower row.2.body needle).orElse fun _ =>
    row.2.file.bind fun file => snippetOf lower file.name needle).getD ""
  group := row.2.group

theorem snippetOf_eq_none {field : String} : snippetOf lower field needle = none ↔
    ¬ Contains lower needle field.toList := by
  rw [snippetOf, Option.map_eq_none_iff, contains_iff, Option.not_isSome_iff_eq_none]

/-- The snippet is cut out of the field that was matched. -/
theorem snippet_of_matchedField {rec : ChatRecord} {field : String} (h : MatchedField lower needle rec field) :
    ((snippetOf lower rec.body needle).orElse fun _ =>
      rec.file.bind fun file => snippetOf lower file.name needle) = snippetOf lower field needle := by
  rcases h with ⟨met, rfl⟩ | ⟨missed, file, own, -, rfl⟩
  · cases found : snippetOf lower rec.body needle with
    | none => exact absurd met (snippetOf_eq_none.mp found)
    | some snippet => rfl
  · rw [snippetOf_eq_none.mpr missed, own]
    rfl

theorem matchedField_contains {rec : ChatRecord} {field : String} (h : MatchedField lower needle rec field) :
    Contains lower needle field.toList := by
  rcases h with ⟨met, rfl⟩ | ⟨-, file, -, met, rfl⟩
  · exact met
  · exact met

theorem snippet_eq_none {rec : ChatRecord} (missed : ¬ ∃ field, MatchedField lower needle rec field) :
    ((snippetOf lower rec.body needle).orElse fun _ =>
      rec.file.bind fun file => snippetOf lower file.name needle) = none := by
  have body : ¬ Contains lower needle rec.body.toList := fun met => missed ⟨_, .inl ⟨met, rfl⟩⟩
  rw [snippetOf_eq_none.mpr body]
  show (rec.file.bind _) = none
  cases own : rec.file with
  | none => rfl
  | some file => exact snippetOf_eq_none.mpr fun met => missed ⟨_, .inr ⟨body, file, own, met, rfl⟩⟩

theorem filterMap_hit (rows : List (DeviceId × ChatRecord)) :
    rows.filterMap (fun row => hit lower c row.1 row.2 needle) =
      (answers lower needle rows).map (hitOf c lower needle) := by
  classical
  induction rows with
  | nil => rfl
  | cons row rows ih =>
    rw [answers, List.filterMap_cons, List.filter_cons]
    by_cases answer : ∃ field, MatchedField lower needle row.2 field
    · obtain ⟨field, matched⟩ := answer
      have told : hit lower c row.1 row.2 needle = some (hitOf c lower needle row) := by
        have window := snippet_of_matchedField matched
        have some_ := mt snippetOf_eq_none.mp (not_not.mpr (matchedField_contains matched))
        obtain ⟨snippet, cut⟩ := Option.ne_none_iff_exists'.mp some_
        rw [hit, hitOf, window, cut]
        rfl
      rw [told, if_pos (decide_eq_true ⟨field, matched⟩), List.map_cons]
      exact congrArg (hitOf c lower needle row :: ·) ih
    · have silent : hit lower c row.1 row.2 needle = none := by
        rw [hit, snippet_eq_none answer]
        rfl
      rw [silent, if_neg (by simpa using answer)]
      exact ih

theorem matchedField_unique {rec : ChatRecord} {field field' : String} (h : MatchedField lower needle rec field)
    (h' : MatchedField lower needle rec field') : field = field' := by
  rcases h with ⟨met, rfl⟩ | ⟨missed, file, own, -, rfl⟩
  · rcases h' with ⟨-, rfl⟩ | ⟨missed, -⟩
    · rfl
    · exact absurd met missed
  · rcases h' with ⟨met, -⟩ | ⟨-, file', own', -, rfl⟩
    · exact absurd met missed
    · cases own.symm.trans own'
      rfl

/-- Where the limit allows all rows, none that is found is left out. -/
theorem mem_bestRows_of_le {rows : List (DeviceId × ChatRecord)} {limit : Nat}
    (all : (distinctRows rows).length ≤ limit) {row : DeviceId × ChatRecord} (mem : row ∈ distinctRows rows)
    (answer : ∃ field, MatchedField lower needle row.2 field) : row ∈ bestRows c lower needle rows limit := by
  rw [bestRows, List.take_of_length_le]
  · exact (Ranked.perm_sort _).mem_iff.mpr (mem_answers.mpr ⟨mem, answer⟩)
  · rw [(Ranked.perm_sort _).length_eq]
    exact (List.length_filter_le _ _).trans all

/-- A hit is right where the match fits. -/
theorem hitFor_hitOf_iff {row : DeviceId × ChatRecord} (answer : ∃ field, MatchedField lower needle row.2 field) :
    HitFor c lower needle row (hitOf c lower needle row) ↔
      ∀ field, MatchedField lower needle row.2 field → Fits lower needle field.toList := by
  obtain ⟨field, matched⟩ := answer
  obtain ⟨position, found⟩ := Option.isSome_iff_exists.mp (contains_iff.mp (matchedField_contains matched))
  have cut : (hitOf c lower needle row).snippet.toList =
      (field.toList.drop (position - snippetLead)).take snippetChars := by
    rw [hitOf, snippet_of_matchedField matched, snippetOf, found, Option.map_some, Option.getD_some, String.toList_ofList]
  constructor
  · intro right field' matched'
    obtain ⟨own, met, snippet⟩ := right.snippet
    cases matchedField_unique matched matched'
    cases matchedField_unique matched met
    rw [cut] at snippet
    exact (snippetFor_window_iff found).mp snippet
  · intro fits
    refine ⟨rfl, rfl, rfl, rfl, rfl, rfl, rfl, field, matched, ?_⟩
    rw [cut]
    exact (snippetFor_window_iff found).mpr (fits field matched)

def hitOrder (c : Chrono) (a b : SearchHit) : Ordering :=
  (compare (b.instant.getD c.minUtc) (a.instant.getD c.minUtc)).then
    ((compare a.peerId b.peerId).then (compare a.messageId b.messageId))

instance : Std.TransCmp (newestFirst c) :=
  inferInstanceAs (Std.TransCmp (compareLex
    (fun row row' => (compareOn fun row : DeviceId × ChatRecord => (row.2.ageBasis c).getD c.minUtc) row' row)
    (compareLex (compareOn fun row : DeviceId × ChatRecord => row.1)
      (compareOn fun row : DeviceId × ChatRecord => row.2.id))))

def TopHits.Holds (c : Chrono) (limit : Nat) (hits : List SearchHit) (top : TopHits) : Prop :=
  top.limit = limit ∧ Ranked.Best (hitOrder c) limit hits top.hits top.truncated

theorem TopHits.Holds.push {limit : Nat} {hits : List SearchHit} {top : TopHits} (h : top.Holds c limit hits)
    (hit : SearchHit) : (top.push c hit).Holds c limit (hits ++ [hit]) := by
  obtain ⟨rfl, best⟩ := h
  have bound : top.hits.length ≤ top.limit := by
    rw [best.1]
    exact List.length_take_le _ _
  obtain ⟨hits', cut⟩ := best.concat hit
  have behind : (top.hits.takeWhile (·.before c hit)).length ≤ top.hits.length := (List.takeWhile_sublist _).length_le
  have size : (top.hits.insertIdx (top.hits.takeWhile (·.before c hit)).length hit).length = top.hits.length + 1 :=
    @Ranked.length_insert _ (hitOrder c) hit top.hits
  change (top.hits.insertIdx (top.hits.takeWhile (·.before c hit)).length hit).take top.limit = _ at hits'
  rw [TopHits.push]
  generalize (top.hits.takeWhile (·.before c hit)).length = position at behind size hits'
  split
  next full =>
    -- nothing was held that is not before the hit
    have last : position = top.hits.length := by omega
    rw [last, List.insertIdx_length_self, List.take_append_of_le_length (by omega),
      List.take_of_length_le bound] at hits'
    rw [decide_eq_true (by omega), Bool.or_true] at cut
    exact ⟨rfl, hits', cut⟩
  next room =>
    split
    next =>
      have last : (top.hits.insertIdx position hit).dropLast = (top.hits.insertIdx position hit).take top.limit := by
        rw [List.dropLast_eq_take, size]
        congr 1
        omega
      rw [decide_eq_true (by omega), Bool.or_true] at cut
      exact ⟨rfl, last.trans hits', cut⟩
    next free =>
      rw [List.take_of_length_le (Nat.not_lt.mp free)] at hits'
      rw [decide_eq_false (by omega), Bool.or_false] at cut
      exact ⟨rfl, hits', cut⟩

theorem foldl_push_holds {limit : Nat} (hits : List SearchHit) :
    (hits.foldl (TopHits.push c) ⟨[], limit, false⟩).Holds c limit hits := by
  induction hits using List.reverseRecOn with
  | nil => exact ⟨rfl, Ranked.best_nil limit⟩
  | append_singleton hits hit ih =>
    rw [List.foldl_concat]
    exact ih.push hit

structure Scans (c : Chrono) (lower : Char → List Char) (needle : List Char) (rows : List (DeviceId × ChatRecord))
    (w w' : Searched) : Prop where
  store : w'.store = w.store
  seen : ∀ id, id ∈ w'.seenGroup ↔ id ∈ rows.filterMap groupId ++ w.seenGroup
  top : w'.top = ((FirstSeen.keep groupId w.seenGroup rows).filterMap
    fun row => hit lower c row.1 row.2 needle).foldl (TopHits.push c) w.top

theorem scan_of_private {peer : DeviceId} {w : Searched} {rec : ChatRecord} (alone : rec.group = none) :
    scan c lower needle peer w rec =
      { w with top := (hit lower c peer rec needle).elim w.top (w.top.push c) } := by
  rw [scan, alone]
  rfl

theorem scan_of_met {peer : DeviceId} {w : Searched} {rec : ChatRecord} {group : String}
    (own : rec.group = some group) (met : rec.id ∈ w.seenGroup) : scan c lower needle peer w rec = w := by
  rw [scan, own, if_pos]
  rw [List.contains_iff_mem.mpr met]
  rfl

theorem scan_of_new {peer : DeviceId} {w : Searched} {rec : ChatRecord} {group : String}
    (own : rec.group = some group) (new : rec.id ∉ w.seenGroup) : scan c lower needle peer w rec =
      ⟨w.store, rec.id :: w.seenGroup, (hit lower c peer rec needle).elim w.top (w.top.push c)⟩ := by
  rw [scan, own, if_neg]
  · rfl
  · rw [Option.isSome_some, Bool.true_and, List.contains_iff_mem]
    exact new

theorem foldl_push_cons (row : DeviceId × ChatRecord) (rows : List (DeviceId × ChatRecord)) (top : TopHits) :
    ((row :: rows).filterMap fun row => hit lower c row.1 row.2 needle).foldl (TopHits.push c) top =
      (rows.filterMap fun row => hit lower c row.1 row.2 needle).foldl (TopHits.push c)
        ((hit lower c row.1 row.2 needle).elim top (top.push c)) := by
  rw [List.filterMap_cons]
  cases hit lower c row.1 row.2 needle <;> rfl

theorem foldl_scan (peer : DeviceId) (recs : List ChatRecord) (w : Searched) :
    Scans c lower needle (recs.map (peer, ·)) w (recs.foldl (scan c lower needle peer) w) := by
  induction recs generalizing w with
  | nil => exact ⟨rfl, fun _ => Iff.rfl, rfl⟩
  | cons rec recs ih =>
    rw [List.foldl_cons, List.map_cons]
    cases own : rec.group with
    | none =>
      have free : groupId (peer, rec) = none := by
        rw [groupId, own]
        rfl
      rw [scan_of_private own]
      obtain ⟨store, seen, top⟩ := ih { w with top := (hit lower c peer rec needle).elim w.top (w.top.push c) }
      refine ⟨store, fun id => ?_, ?_⟩
      · rw [seen, List.filterMap_cons_none free]
      · rw [top, FirstSeen.keep_cons_of_none free, foldl_push_cons]
    | some group =>
      have keyed : groupId (peer, rec) = some rec.id := by
        rw [groupId, own]
        rfl
      by_cases met : rec.id ∈ w.seenGroup
      · rw [scan_of_met own met]
        obtain ⟨store, seen, top⟩ := ih w
        refine ⟨store, fun id => ?_, ?_⟩
        · rw [seen, List.filterMap_cons_some keyed, List.cons_append, List.mem_cons, iff_or_self]
          rintro rfl
          exact List.mem_append_right _ met
        · rw [top, FirstSeen.keep_cons_of_mem keyed met]
      · rw [scan_of_new own met]
        obtain ⟨store, seen, top⟩ := ih ⟨w.store, rec.id :: w.seenGroup,
          (hit lower c peer rec needle).elim w.top (w.top.push c)⟩
        refine ⟨store, fun id => ?_, ?_⟩
        · rw [seen, List.filterMap_cons_some keyed, List.cons_append, List.mem_append, List.mem_cons, List.mem_cons,
            List.mem_append]
          exact or_left_comm
        · rw [top, FirstSeen.keep_cons_of_not_mem keyed met, foldl_push_cons]

end

/-- In a field that is no longer than a snippet everything fits. -/
theorem fits_of_short {field : List Char} (short : field.length ≤ snippetChars) : Fits lower needle field := by
  intro position matched h _
  have within := h.begins.length_le
  rw [List.length_drop] at within
  by_cases outside : field.length ≤ position
  · have none_ : matched.length = 0 := by omega
    rw [none_]
    exact (Nat.min_le_left _ _).trans (by decide)
  · omega

end Search

namespace ChatStore
open Search
variable {c : Chrono} {lower : Char → List Char} {s : ChatStore}

/-- The rows in their windows, as they land, in the order in which they are read. -/
def windowRows (c : Chrono) (s : ChatStore) (clock : DeviceId → Int) (peers : List DeviceId) :
    List (DeviceId × ChatRecord) :=
  peers.flatMap fun peer =>
    match s.retention peer with
    | .error _ => []
    | .ok r => (((s.rows peer).toList.filterMap Prod.snd).filter
        (·.shownAt c true r (clock peer))).map fun rec => (peer, s.landed rec)

theorem mem_windowRows {clock : DeviceId → Int} {peers : List DeviceId} {row : DeviceId × ChatRecord}
    (mem : row ∈ s.windowRows c clock peers) :
    row.1 ∈ peers ∧ ∃ key rec, (key, some rec) ∈ (s.rows row.1).toList ∧ row.2 = s.landed rec := by
  obtain ⟨peer, here, mem⟩ := List.mem_flatMap.mp mem
  cases window : s.retention peer with
  | error e => rw [window] at mem; cases mem
  | ok r =>
    rw [window] at mem
    obtain ⟨rec, shown, rfl⟩ := List.mem_map.mp mem
    obtain ⟨⟨key, _⟩, listed, rfl⟩ := List.mem_filterMap.mp (List.mem_filter.mp shown).1
    exact ⟨here, key, rec, listed, rfl⟩

theorem newestFirst_ne_eq {a b : DeviceId × ChatRecord} (apart : a.1 ≠ b.1 ∨ a.2.id ≠ b.2.id) :
    newestFirst c a b ≠ .eq := by
  intro tied
  obtain ⟨-, same⟩ := Ordering.then_eq_eq.mp tied
  obtain ⟨peer, id⟩ := Ordering.then_eq_eq.mp same
  exact apart.elim (fun other => other (Std.LawfulEqOrd.eq_of_compare peer))
    fun other => other (Std.LawfulEqOrd.eq_of_compare id)

/-- No row is there twice. -/
theorem windowRows_apart (keyed : s.WellKeyed) (clock : DeviceId → Int) {peers : List DeviceId} (apart : peers.Nodup) :
    (s.windowRows c clock peers).Pairwise fun a b => newestFirst c a b ≠ .eq := by
  rw [windowRows, List.pairwise_flatMap]
  constructor
  · intro peer _
    cases s.retention peer with
    | error e => exact .nil
    | ok r =>
      obtain ⟨distinct, placed, _⟩ := keyed.listed peer
      refine List.pairwise_map.mpr (List.Pairwise.filter _ (List.pairwise_filterMap.mpr ?_))
      refine distinct.imp_of_mem fun {row row'} mem mem' other rec own rec' own' => newestFirst_ne_eq (.inr ?_)
      obtain ⟨key, _⟩ := row
      obtain ⟨key', _⟩ := row'
      cases own
      cases own'
      rw [(s.landed_key rec).2, (s.landed_key rec').2, (placed _ _ mem).2, (placed _ _ mem').2]
      exact other
  · refine apart.imp fun {peer peer'} other row mem row' mem' => newestFirst_ne_eq (.inl ?_)
    have own (peer : DeviceId) (row : DeviceId × ChatRecord) (mem : row ∈ s.windowRows c clock [peer]) : row.1 = peer :=
      List.mem_singleton.mp (mem_windowRows mem).1
    rw [own peer row (List.mem_flatMap.mpr ⟨peer, List.mem_singleton_self _, mem⟩),
      own peer' row' (List.mem_flatMap.mpr ⟨peer', List.mem_singleton_self _, mem'⟩)]
    exact other

theorem searchFrom_top (keyed : s.WellKeyed) {clock : DeviceId → Int} {needle : List Char} {peers : List DeviceId}
    (apart : peers.Nodup) {w w' : Searched} (fresh : s.Untouched peers w.store)
    (done : searchFrom c lower clock needle peers w = .ok w') :
    w'.top = ((FirstSeen.keep groupId w.seenGroup (s.windowRows c clock peers)).filterMap
      fun row => hit lower c row.1 row.2 needle).foldl (TopHits.push c) w.top := by
  induction peers generalizing w with
  | nil =>
    cases done
    rfl
  | cons peer peers ih =>
    obtain ⟨new, apart⟩ := List.nodup_cons.mp apart
    rw [searchFrom, records, retention_congr fresh.windows] at done
    cases window : s.retention peer with
    | error e => rw [window] at done; cases done
    | ok r =>
      rw [window] at done
      have here := fresh.same peer List.mem_cons_self
      have listed := here.listed (keyed.listed peer)
      dsimp only [Except.map] at done
      rw [here.rows] at done
      have recs : (shown c true r (clock peer) w.store (s.rows peer).toList).2 =
          (((s.rows peer).toList.filterMap Prod.snd).filter (·.shownAt c true r (clock peer))).map s.landed := by
        rw [shown_snd listed]
        refine List.map_congr_left fun rec mem => here.landed ?_
        obtain ⟨⟨key, _⟩, stored, rfl⟩ := List.mem_filterMap.mp (List.mem_filter.mp mem).1
        exact (listed.placed key rec stored).1
      have windows : (shown c true r (clock peer) w.store (s.rows peer).toList).1.windows = w.store.windows :=
        windows_shown _ _
      have others (other : DeviceId) (apart : peer ≠ other) : w.store.SameFor
          (shown c true r (clock peer) w.store (s.rows peer).toList).1 other := sameFor_shown apart listed
      generalize shown c true r (clock peer) w.store (s.rows peer).toList = read at done recs windows others
      obtain ⟨store, seen, top⟩ : Scans c lower needle (read.2.map (peer, ·)) { w with store := read.1 } _ :=
        foldl_scan peer read.2 _
      have next := ih apart (by
        rw [store]
        exact fresh.next new windows others) done
      have split : s.windowRows c clock (peer :: peers) = read.2.map (peer, ·) ++ s.windowRows c clock peers := by
        rw [windowRows, List.flatMap_cons, window, recs, List.map_map]
        rfl
      rw [next, top, split, FirstSeen.keep_append, List.filterMap_append, List.foldl_append]
      rw [FirstSeen.keep_congr seen]

def wanted (lower : Char → List Char) (query : String) : List Char := fold lower (Groups.trim query).toList

theorem searchFrom_ok {clock : DeviceId → Int} {needle : List Char} (readable : ∀ peer, s.windows peer ≠ some none)
    (peers : List DeviceId) {w : Searched} (windows : w.store.windows = s.windows) :
    ∃ w', searchFrom c lower clock needle peers w = .ok w' := by
  induction peers generalizing w with
  | nil => exact ⟨w, rfl⟩
  | cons peer peers ih =>
    rw [searchFrom, records, retention_congr windows]
    cases window : s.retention peer with
    | error e =>
      cases e
      exact absurd (retention_error_iff.mp window) (readable peer)
    | ok r =>
      dsimp only [Except.map]
      refine ih ?_
      rw [(foldl_scan peer _ _).store]
      exact (windows_shown _ _).trans windows

/-- A search fails only where it cannot read what a peer's window is. -/
theorem search_ok (readable : ∀ peer, s.windows peer ≠ some none) (clock : DeviceId → Int) (query : String)
    (limit : Nat) : ∃ out, s.search c lower clock query limit = .ok out := by
  obtain ⟨w, done⟩ : ∃ w, searchFrom c lower clock (wanted lower query) s.peerNamespaces
      ⟨s, [], ⟨[], limit, false⟩⟩ = .ok w := searchFrom_ok readable _ rfl
  rw [search]
  split
  next => exact ⟨_, rfl⟩
  next => exact ⟨_, congrArg (Except.map _) done⟩

/-- The hits found are those for the best rows. -/
theorem search_eq (keyed : s.WellKeyed) {clock : DeviceId → Int} {query : String} {limit : Nat}
    {out : ChatStore × SearchResults} (read : s.search c lower clock query limit = .ok out) :
    out.2.hits = (bestRows c lower (wanted lower query) (s.windowRows c clock s.peerNamespaces) limit).map
        (hitOf c lower (wanted lower query)) ∧
      out.2.truncated = decide (limit < (answers lower (wanted lower query)
        (distinctRows (s.windowRows c clock s.peerNamespaces))).length) := by
  rw [search] at read
  rw [wanted]
  generalize fold lower (Groups.trim query).toList = needle at read ⊢
  split at read
  next blank =>
    cases read
    subst blank
    have none_ (rows : List (DeviceId × ChatRecord)) : answers lower [] rows = [] := by
      refine List.eq_nil_iff_forall_not_mem.mpr fun row mem => ?_
      obtain ⟨-, field, matched⟩ := mem_answers.mp mem
      exact (matchedField_contains matched).1 rfl
    rw [bestRows, none_]
    exact ⟨by simp [Ranked.sort], rfl⟩
  next =>
    obtain ⟨w, done, rfl⟩ := Outcome.ok_of_map read
    have untouched : s.Untouched s.peerNamespaces s := ⟨rfl, fun _ _ => ⟨rfl, rfl⟩⟩
    have top := searchFrom_top keyed s.nodup_peerNamespaces untouched done
    rw [filterMap_hit] at top
    obtain ⟨-, best, cut⟩ : w.top.Holds c limit ((answers lower needle
        (distinctRows (s.windowRows c clock s.peerNamespaces))).map (hitOf c lower needle)) := by
      rw [top]
      exact foldl_push_holds _
    have apart : (answers lower needle (distinctRows (s.windowRows c clock s.peerNamespaces))).Pairwise
        fun a b => newestFirst c a b ≠ .eq :=
      ((windowRows_apart keyed clock s.nodup_peerNamespaces).sublist (FirstSeen.keep_sublist _ _)).filter _
    constructor
    · rw [Ranked.arrange_map] at best
      change w.top.hits = ((Ranked.arrange (newestFirst c) _).map _).take limit at best
      rw [Ranked.arrange_eq_sort apart, ← List.map_take] at best
      exact best
    · rw [List.length_map] at cut
      exact cut

/-- For a store whose rows stand under their own keys, the results are right exactly where every match that is
reported and is short enough for a snippet fits in it after the lead. -/
theorem answered_iff (keyed : s.WellKeyed) {clock : DeviceId → Int} {query : String} {limit : Nat}
    {out : ChatStore × SearchResults} (read : s.search c lower clock query limit = .ok out) :
    Answered c lower (wanted lower query) (s.windowRows c clock s.peerNamespaces) limit out.2 ↔
      ∀ row ∈ bestRows c lower (wanted lower query) (s.windowRows c clock s.peerNamespaces) limit,
        ∀ field, MatchedField lower (wanted lower query) row.2 field →
          Fits lower (wanted lower query) field.toList := by
  obtain ⟨hits, truncated⟩ := search_eq keyed read
  generalize wanted lower query = needle at hits truncated
  generalize s.windowRows c clock s.peerNamespaces = rows at hits truncated
  have answer (row : DeviceId × ChatRecord) (mem : row ∈ bestRows c lower needle rows limit) :
      ∃ field, MatchedField lower needle row.2 field := by
    exact (mem_answers.mp ((Ranked.perm_sort _).mem_iff.mp (List.mem_of_mem_take mem))).2
  have same : List.Forall₂ (HitFor c lower needle) (bestRows c lower needle rows limit) out.2.hits ↔
      ∀ row ∈ bestRows c lower needle rows limit, HitFor c lower needle row (hitOf c lower needle row) := by
    rw [hits, List.forall₂_map_right_iff, List.forall₂_same]
  calc
    _ ↔ List.Forall₂ (HitFor c lower needle) (bestRows c lower needle rows limit) out.2.hits :=
      ⟨fun h => h.hits, fun h => ⟨h, by rw [truncated, decide_eq_true_iff]⟩⟩
    _ ↔ _ := same.trans (forall₂_congr fun row mem => hitFor_hitOf_iff (answer row mem))

/-- Every snippet is cut between characters, and the results are those asked for exactly where every match that is
reported and is short enough for a snippet fits in it after the lead. -/
theorem search_meets_iff (keyed : s.WellKeyed) {clock : DeviceId → Int} {query : String} {limit : Nat}
    {out : ChatStore × SearchResults} (read : s.search c lower clock query limit = .ok out) :
    (∀ (field : String) (needle : List Char), snippetAt lower field.toList needle =
        some ((snippetOf lower field needle).map String.toList)) ∧
      (Answered c lower (wanted lower query) (s.windowRows c clock s.peerNamespaces) limit out.2 ↔
        ∀ row ∈ bestRows c lower (wanted lower query) (s.windowRows c clock s.peerNamespaces) limit,
          ∀ field, MatchedField lower (wanted lower query) row.2 field →
            Fits lower (wanted lower query) field.toList) := by
  refine ⟨fun field needle => ?_, answered_iff keyed read⟩
  rw [snippetAt_eq, snippetOf, Option.map_map]
  refine congrArg some (congrArg (fun f => Option.map f _) (funext fun position => ?_))
  rw [Function.comp_apply, String.toList_ofList]

private def asciiLower (letter : Char) : List Char := [letter.toLower]

private def plainDates : Chrono := ⟨fun _ => none, fun now _ => some now, 0⟩

private def note (body : String) : ChatRecord :=
  { id := "m", peerId := "ann", direction := .inn, timestamp := "2026-01-01T00:00:00Z", body := body,
    status := .received, kind := .text, file := none, inReplyTo := none, group := none, storedAt := some 0 }

private def said (body : String) : ChatStore := empty.write (note body)

private theorem windows_said (body : String) (peer : DeviceId) : (said body).windows peer ≠ some none := nofun

private theorem rows_said : (said "hello").windowRows plainDates (fun _ => 0) (said "hello").peerNamespaces =
    [("ann", note "hello")] := rfl

/-- What is short is found and shown. -/
theorem short_match_shown : ∃ out, (said "hello").search plainDates asciiLower (fun _ => 0) " LL" 50 = .ok out ∧
    Answered plainDates asciiLower (wanted asciiLower " LL")
      ((said "hello").windowRows plainDates (fun _ => 0) (said "hello").peerNamespaces) 50 out.2 := by
  obtain ⟨out, read⟩ : ∃ out, (said "hello").search plainDates asciiLower (fun _ => 0) " LL" 50 = .ok out :=
    search_ok (windows_said "hello") _ _ _
  have keyed : (said "hello").WellKeyed := wellKeyed_empty.write _
  refine ⟨out, read, (search_meets_iff keyed read).2.mpr fun row mem field matched => ?_⟩
  rw [rows_said] at mem
  have here := (mem_answers.mp ((Ranked.perm_sort _).mem_iff.mp (List.mem_of_mem_take mem))).1
  cases List.mem_singleton.mp ((FirstSeen.keep_sublist _ _).mem here)
  obtain ⟨-, rfl⟩ | ⟨-, file, none_, -⟩ := matched
  · exact fits_of_short (by decide)
  · cases none_

private def letters (n : Nat) : List Char := List.replicate n 'a'

private theorem fold_letters (n : Nat) : fold asciiLower (letters n) = letters n := by
  induction n with
  | zero => rfl
  | succ n ih =>
    rw [letters, List.replicate_succ, fold, List.flatMap_cons]
    exact congrArg ('a' :: ·) ih

private theorem wanted_letters (n : Nat) : wanted asciiLower (String.ofList (letters n)) = letters n := by
  have trimmed : (Groups.trim (String.ofList (letters n))).toList = letters n := by
    rw [Groups.trim, letters, String.toList_ofList, String.toList_ofList, List.dropWhile_replicate, if_neg (by decide),
      List.rdropWhile, List.reverse_replicate, List.dropWhile_replicate, if_neg (by decide), List.reverse_replicate]
  rw [wanted, trimmed, fold_letters]

private theorem firstMatch_letters (lead n : Nat) :
    FirstMatch asciiLower (letters (n + 1)) (List.replicate lead 'x' ++ letters (n + 1)) lead (letters (n + 1)) := by
  refine ⟨?_, (fold_letters _).symm ▸ List.prefix_refl _, fun other _ reads => ?_, fun earlier met => ?_⟩
  · rw [List.drop_left' List.length_replicate]
  · have size := reads.length_le
    rw [fold, List.length_flatMap] at size
    simpa [asciiLower] using size
  · by_contra before
    have short : earlier ≤ (List.replicate lead 'x').length := by
      rw [List.length_replicate]
      omega
    rw [List.drop_append_of_le_length short, List.drop_replicate] at met
    obtain ⟨k, rest⟩ := Nat.exists_eq_add_one.mpr (Nat.sub_pos_of_lt (Nat.not_le.mp before))
    rw [rest, letters, List.replicate_succ, List.replicate_succ, List.cons_append, fold, List.flatMap_cons] at met
    cases (List.cons_prefix_cons.mp met).1

private def longBody : String := String.ofList (List.replicate 24 'x' ++ letters 100)

private theorem rows_long : distinctRows
    ((said longBody).windowRows plainDates (fun _ => 0) (said longBody).peerNamespaces) = [("ann", note longBody)] := rfl

/-- The end of a match of a hundred characters with a lead of twenty-four is not in the snippet. -/
theorem long_match_cut_off :
    ∃ out, (said longBody).search plainDates asciiLower (fun _ => 0) (String.ofList (letters 100)) 50 = .ok out ∧
      ¬ Answered plainDates asciiLower (wanted asciiLower (String.ofList (letters 100)))
        ((said longBody).windowRows plainDates (fun _ => 0) (said longBody).peerNamespaces) 50 out.2 := by
  obtain ⟨out, read⟩ : ∃ out, (said longBody).search plainDates asciiLower (fun _ => 0)
      (String.ofList (letters 100)) 50 = .ok out := search_ok (windows_said longBody) _ _ _
  refine ⟨out, read, fun answered => ?_⟩
  have keyed : (said longBody).WellKeyed := wellKeyed_empty.write _
  have fits := (answered_iff keyed read).mp answered ("ann", note longBody)
  rw [wanted_letters] at fits
  have first : FirstMatch asciiLower (letters 100) longBody.toList 24 (letters 100) := by
    rw [longBody, String.toList_ofList]
    exact firstMatch_letters 24 99
  have matched : MatchedField asciiLower (letters 100) (note longBody) longBody :=
    .inl ⟨⟨nofun, 24, first.reads.trans (fold_mono first.begins)⟩, rfl⟩
  have mem : ("ann", note longBody) ∈ bestRows plainDates asciiLower (letters 100)
      ((said longBody).windowRows plainDates (fun _ => 0) (said longBody).peerNamespaces) 50 := by
    refine mem_bestRows_of_le ?_ ?_ ⟨longBody, matched⟩
    · rw [rows_long]
      exact Nat.le_add_left 1 49
    · rw [rows_long]
      exact List.mem_singleton_self _
  have size := fits mem longBody matched 24 (letters 100) first
  rw [letters, List.length_replicate] at size
  exact absurd (size (by decide)) (by decide)

end ChatStore

end PeerBeam.Chat
