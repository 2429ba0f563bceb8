import PeerBeam.Update.Assets
import PeerBeam.Update.Fetch

/-! Where a redirect may lead a fetch, read off the text of an address. -/
namespace PeerBeam.Update

/-- What follows the first time `sep` stands in a text. -/
def afterFirst (sep : List Char) : List Char → Option (List Char)
  | [] => none
  | c :: s => if sep <+: c :: s then some ((c :: s).drop sep.length) else afterFirst sep s

def isHttps (url : String) : Bool :=
  let url := trim url.toList
  8 < url.length && (url.take 8).map Char.toLower = "https://".toList

/-- What is in front of a `@` names a user, and what follows a colon is the port. -/
def hostOf (url : String) : Option String := do
  let rest ← afterFirst "://".toList url.toList
  let authority := rest.takeWhile (· ∉ ['/', '?', '#'])
  let host := authority.rtakeWhile (· ≠ '@')
  let host := host.takeWhile (· ≠ ':')
  if host = [] then none else some (String.ofList (host.map Char.toLower))

def redirectAllowlist : List String := ["github.com", "release-assets.githubusercontent.com"]

def maxRedirects : ℕ := 5

inductive RedirectRefusal
  | offHost (host : String)
  | insecure (host : String)
  | tooMany
  deriving DecidableEq

def RedirectRefusal.intoError (what : String) : RedirectRefusal → DownloadError
  | offHost host => .redirectedOffHost host
  | insecure host => .insecureRedirect host
  | tooMany => .unreachable what s!"more than {maxRedirects} redirects, all between hosts on the allowlist"

/-- `requested` counts the addresses asked for so far, the first one included. -/
def judgeRedirect (next : String) (requested : ℕ) : Except RedirectRefusal Unit :=
  let host := (hostOf next).getD next
  if host ∉ redirectAllowlist then .error (.offHost host)
  else if !isHttps next then .error (.insecure host)
  else if requested > maxRedirects then .error .tooMany
  else .ok ()

/-- The addresses asked for along a chain of redirects, and what ended the chain early. -/
def follow (asked : List String) : List String → List String × Option RedirectRefusal
  | [] => (asked, none)
  | next :: rest =>
    match judgeRedirect next asked.length with
    | .ok () => follow (asked ++ [next]) rest
    | .error refusal => (asked, some refusal)

/-- ASCII that is neither white space nor a control character. -/
def Visible (c : Char) : Prop := 0x21 ≤ c.toNat ∧ c.toNat ≤ 0x7e

instance : DecidablePred Visible := fun _ => inferInstanceAs (Decidable (_ ∧ _))

def delimiters : List Char := [':', '/', '?', '#', '[', ']', '@']

/-- An address as a serialiser writes it: `scheme://[userinfo@]host[:port][/path][?query][#fragment]`. A host is a
name, which may be empty, or a number in brackets. -/
structure Url where
  scheme : List Char
  userinfo : Option (List Char)
  host : List Char
  port : Option (List Char)
  path : List Char
  query : Option (List Char)
  fragment : Option (List Char)
  scheme_spelled : ∃ c rest, scheme = c :: rest ∧ c.isAlpha = true ∧
    ∀ d ∈ rest, d.isAlphanum = true ∨ d ∈ ['+', '-', '.']
  userinfo_spelled : ∀ u ∈ userinfo, ∀ c ∈ u, Visible c ∧ (c = ':' ∨ c ∉ delimiters)
  host_spelled : (∀ c ∈ host, Visible c ∧ c ∉ delimiters) ∨
    ∃ inner, host = '[' :: inner ++ [']'] ∧ ∀ c ∈ inner, Visible c ∧ (c = ':' ∨ c ∉ delimiters)
  port_spelled : ∀ p ∈ port, ∀ c ∈ p, c.isDigit = true
  path_spelled : (∀ c ∈ path, Visible c ∧ c ≠ '?' ∧ c ≠ '#') ∧ (path = [] ∨ path.head? = some '/')
  query_spelled : ∀ q ∈ query, ∀ c ∈ q, Visible c ∧ c ≠ '#'
  fragment_spelled : ∀ f ∈ fragment, ∀ c ∈ f, Visible c

namespace Url
variable (u : Url)

def authority : List Char :=
  (u.userinfo.elim [] (· ++ ['@'])) ++ (u.host ++ u.port.elim [] (':' :: ·))

def target : List Char := u.path ++ (u.query.elim [] ('?' :: ·) ++ u.fragment.elim [] ('#' :: ·))

def text : String := String.ofList (u.scheme ++ ("://".toList ++ (u.authority ++ u.target)))

/-- Neither a scheme nor a host has a case. -/
def schemeName : String := String.ofList (u.scheme.map Char.toLower)

def hostName : String := String.ofList (u.host.map Char.toLower)

structure Trusted : Prop where
  host : u.hostName ∈ redirectAllowlist
  https : u.schemeName = "https"

end Url

theorem afterFirst_append {sep : List Char} {d : Char} (first : sep.head? = some d) {a : List Char} (b : List Char)
    (free : d ∉ a) : afterFirst sep (a ++ (sep ++ b)) = some b := by
  obtain ⟨rest, rfl⟩ := List.head?_eq_some_iff.mp first
  induction a with
  | nil =>
    have here : d :: rest <+: d :: (rest ++ b) := List.prefix_append (d :: rest) b
    rw [List.nil_append, List.cons_append, afterFirst, if_pos here, ← List.cons_append, List.drop_left]
  | cons c a ih =>
    rw [List.cons_append, afterFirst, if_neg, ih fun mem => free (List.mem_cons_of_mem _ mem)]
    intro starts
    exact free ((List.cons_prefix_cons.mp starts).1 ▸ List.mem_cons_self)

theorem takeWhile_append_stop {p : Char → Bool} {a b : List Char} (all : ∀ c ∈ a, p c = true)
    (stop : ∀ c ∈ b.head?, p c = false) : (a ++ b).takeWhile p = a := by
  rw [List.takeWhile_append_of_pos all]
  cases b with
  | nil => rw [List.takeWhile_nil, List.append_nil]
  | cons c b => rw [List.takeWhile_cons_of_neg (by simp [stop c rfl]), List.append_nil]

theorem rtakeWhile_append_stop {p : Char → Bool} {a b : List Char} (all : ∀ c ∈ b, p c = true)
    (stop : ∀ c ∈ a.getLast?, p c = false) : (a ++ b).rtakeWhile p = b := by
  rw [List.rtakeWhile, List.reverse_append, takeWhile_append_stop, List.reverse_reverse]
  · exact fun c mem => all c (List.mem_reverse.mp mem)
  · rwa [List.head?_reverse]

theorem visible_of_isAlphanum {c : Char} (alphanum : c.isAlphanum = true) : Visible c := by
  simp only [Char.isAlphanum, Char.isAlpha, Char.isUpper, Char.isLower, Char.isDigit, Bool.or_eq_true, Bool.and_eq_true,
    decide_eq_true_eq, ge_iff_le, UInt32.le_iff_toNat_le] at alphanum
  have upper : 'A'.val.toNat = 65 ∧ 'Z'.val.toNat = 90 := ⟨rfl, rfl⟩
  have lower : 'a'.val.toNat = 97 ∧ 'z'.val.toNat = 122 := ⟨rfl, rfl⟩
  have digit : '0'.val.toNat = 48 ∧ '9'.val.toNat = 57 := ⟨rfl, rfl⟩
  change 33 ≤ c.val.toNat ∧ c.val.toNat ≤ 126
  omega

theorem eq_colon_of_toLower {c : Char} (lower : c.toLower = ':') : c = ':' := by
  rw [Char.toLower] at lower
  split at lower
  next upper =>
    have value : c.val + 32 = 58 := congrArg Char.val lower
    have low : 65 ≤ c.val.toNat := UInt32.le_iff_toNat_le.mp upper.1
    have high : c.val.toNat ≤ 90 := UInt32.le_iff_toNat_le.mp upper.2
    have sum := congrArg UInt32.toNat value
    rw [UInt32.toNat_add] at sum
    change (c.val.toNat + 32) % 2 ^ 32 = 58 at sum
    omega
  next => exact lower

namespace Url
variable (u : Url)

theorem colon_not_mem_scheme : ':' ∉ u.scheme := by
  obtain ⟨c, rest, same, letter, spelled⟩ := u.scheme_spelled
  rw [same, List.mem_cons]
  rintro (rfl | mem)
  · exact absurd letter (by decide)
  · exact absurd (spelled _ mem) (by decide)

theorem mem_host {c : Char} (mem : c ∈ u.host) : Visible c ∧ c ∉ ['/', '?', '#', '@'] := by
  have inner {c : Char} (spelled : Visible c ∧ (c = ':' ∨ c ∉ delimiters)) : Visible c ∧ c ∉ ['/', '?', '#', '@'] := by
    refine ⟨spelled.1, ?_⟩
    rcases spelled.2 with rfl | plain
    · decide
    · simp_all [delimiters]
  rcases u.host_spelled with name | ⟨number, same, spelled⟩
  · exact inner ⟨(name c mem).1, .inr (name c mem).2⟩
  · rw [same] at mem
    simp only [List.cons_append, List.mem_cons, List.mem_append, List.not_mem_nil, or_false] at mem
    rcases mem with rfl | mem | rfl
    · exact ⟨by decide, by decide⟩
    · exact inner (spelled c mem)
    · exact ⟨by decide, by decide⟩

theorem mem_hostPort {c : Char} (mem : c ∈ u.host ++ u.port.elim [] (':' :: ·)) :
    Visible c ∧ c ∉ ['/', '?', '#', '@'] := by
  rw [List.mem_append] at mem
  rcases mem with mem | mem
  · exact u.mem_host mem
  · cases own : u.port with
    | none => simp [own] at mem
    | some p =>
      rw [own, Option.elim_some, List.mem_cons] at mem
      rcases mem with rfl | mem
      · exact ⟨by decide, by decide⟩
      · have digit := u.port_spelled p own c mem
        refine ⟨visible_of_isAlphanum (by rw [Char.isAlphanum, digit, Bool.or_true]), fun delimiter => ?_⟩
        simp only [List.mem_cons, List.not_mem_nil, or_false] at delimiter
        rcases delimiter with rfl | rfl | rfl | rfl <;> exact absurd digit (by decide)

theorem mem_authority {c : Char} (mem : c ∈ u.authority) : Visible c ∧ c ∉ ['/', '?', '#'] := by
  rw [authority, List.mem_append] at mem
  rcases mem with mem | mem
  · cases own : u.userinfo with
    | none => simp [own] at mem
    | some user =>
      rw [own, Option.elim_some, List.mem_append, List.mem_singleton] at mem
      rcases mem with mem | rfl
      · obtain ⟨visible, rfl | plain⟩ := u.userinfo_spelled user own c mem
        · exact ⟨visible, by decide⟩
        · exact ⟨visible, by simp_all [delimiters]⟩
      · exact ⟨by decide, by decide⟩
  · obtain ⟨visible, apart⟩ := u.mem_hostPort mem
    exact ⟨visible, by simp_all⟩

theorem head_target {c : Char} (first : c ∈ u.target.head?) : c ∈ ['/', '?', '#'] := by
  rw [target, List.head?_append] at first
  rcases u.path_spelled.2 with empty | slash
  · rw [empty, List.head?_nil, Option.none_or, List.head?_append] at first
    cases asked : u.query with
    | some q =>
      rw [asked] at first
      cases first
      decide
    | none =>
      rw [asked] at first
      cases own : u.fragment with
      | none => rw [own] at first; cases first
      | some f =>
        rw [own] at first
        cases first
        decide
  · rw [slash] at first
    cases first
    decide

theorem mem_target {c : Char} (mem : c ∈ u.target) : Visible c := by
  rw [target, List.mem_append, List.mem_append] at mem
  rcases mem with mem | mem | mem
  · exact (u.path_spelled.1 c mem).1
  · cases own : u.query with
    | none => simp [own] at mem
    | some q =>
      rw [own, Option.elim_some, List.mem_cons] at mem
      rcases mem with rfl | mem
      · decide
      · exact (u.query_spelled q own c mem).1
  · cases own : u.fragment with
    | none => simp [own] at mem
    | some f =>
      rw [own, Option.elim_some, List.mem_cons] at mem
      rcases mem with rfl | mem
      · decide
      · exact u.fragment_spelled f own c mem

theorem text_toList : u.text.toList = u.scheme ++ ("://".toList ++ (u.authority ++ u.target)) := String.toList_ofList

theorem colon_mem_text : ':' ∈ u.text.toList := by
  rw [text_toList, List.mem_append, List.mem_append]
  exact .inr (.inl (by decide))

theorem rtakeWhile_authority : u.authority.rtakeWhile (· ≠ '@') = u.host ++ u.port.elim [] (':' :: ·) := by
  rw [authority]
  apply rtakeWhile_append_stop
  · intro c mem
    have apart := (u.mem_hostPort mem).2
    simp_all
  · cases u.userinfo with
    | none => exact nofun
    | some user => simp

theorem takeWhile_hostPort : (u.host ++ u.port.elim [] (':' :: ·)).takeWhile (· ≠ ':') = u.host.takeWhile (· ≠ ':') := by
  have port : (u.port.elim [] (':' :: ·)).takeWhile (· ≠ ':') = [] := by
    cases u.port <;> simp
  rw [List.takeWhile_append, port, List.append_nil]
  split
  next whole => exact ((List.takeWhile_prefix _).eq_of_length whole).symm
  next => rfl

/-- What the text of an address says its host is: all of it, up to a first colon. -/
theorem hostOf_text : hostOf u.text =
    if u.host.takeWhile (· ≠ ':') = [] then none
    else some (String.ofList ((u.host.takeWhile (· ≠ ':')).map Char.toLower)) := by
  have rest : afterFirst "://".toList u.text.toList = some (u.authority ++ u.target) := by
    rw [text_toList]
    exact @afterFirst_append "://".toList ':' rfl _ _ u.colon_not_mem_scheme
  have authority : (u.authority ++ u.target).takeWhile (· ∉ ['/', '?', '#']) = u.authority := by
    apply takeWhile_append_stop
    · exact fun c mem => decide_eq_true (u.mem_authority mem).2
    · exact fun c first => decide_eq_false (not_not.mpr (u.head_target first))
  rw [hostOf, rest]
  dsimp only [Option.bind_eq_bind, Option.bind_some]
  rw [authority, rtakeWhile_authority, takeWhile_hostPort]

/-- The list has names only, so a host with a colon, or none, is not on it whatever is read of it. -/
theorem listed_iff : (hostOf u.text).getD u.text ∈ redirectAllowlist ↔ u.hostName ∈ redirectAllowlist := by
  have names : ∀ host ∈ redirectAllowlist, ':' ∉ host.toList ∧ '[' ∉ host.toList ∧ host ≠ "" := by decide
  rw [hostOf_text]
  rcases u.host_spelled with name | ⟨number, same, -⟩
  · have whole : u.host.takeWhile (· ≠ ':') = u.host := by
      refine List.takeWhile_eq_self_iff.mpr fun c mem => decide_eq_true ?_
      rintro rfl
      exact (name _ mem).2 (by decide)
    rw [whole, hostName]
    split
    next empty =>
      rw [empty]
      refine iff_of_false (fun mem => ?_) (fun mem => (names _ mem).2.2 rfl)
      exact (names _ mem).1 u.colon_mem_text
    next => rfl
  · have bracket : u.host.takeWhile (· ≠ ':') = '[' :: (number ++ [']']).takeWhile (· ≠ ':') := by
      rw [same, List.cons_append, List.takeWhile_cons_of_pos (by decide)]
    have start {l : List Char} : '[' ∈ (String.ofList (('[' :: l).map Char.toLower)).toList := by
      rw [String.toList_ofList]
      exact List.mem_cons_self
    rw [bracket, if_neg (List.cons_ne_nil _ _), hostName, same, List.cons_append]
    exact iff_of_false (fun mem => (names _ mem).2.1 start) (fun mem => (names _ mem).2.1 start)

theorem mem_text {c : Char} (mem : c ∈ u.text.toList) : Visible c := by
  rw [text_toList, List.mem_append, List.mem_append, List.mem_append] at mem
  rcases mem with mem | mem | mem | mem
  · obtain ⟨first, rest, same, letter, spelled⟩ := u.scheme_spelled
    rw [same, List.mem_cons] at mem
    rcases mem with rfl | mem
    · exact visible_of_isAlphanum (by rw [Char.isAlphanum, letter, Bool.true_or])
    · rcases spelled c mem with alphanum | sign
      · exact visible_of_isAlphanum alphanum
      · simp only [List.mem_cons, List.not_mem_nil, or_false] at sign
        rcases sign with rfl | rfl | rfl <;> decide
  · exact List.all_iff_forall_prop.mp (by decide : "://".toList.all (fun c => Visible c) = true) c mem
  · exact (u.mem_authority mem).1
  · exact u.mem_target mem

theorem trim_text : trim u.text.toList = u.text.toList := by
  have kept {c : Char} (mem : c ∈ u.text.toList) : ¬ isWhitespace c = true := by
    obtain ⟨low, high⟩ := u.mem_text mem
    simp only [isWhitespace, decide_eq_true_eq, List.mem_cons, List.not_mem_nil, or_false]
    omega
  rw [trim, List.dropWhile_eq_self_iff.mpr, List.rdropWhile_eq_self_iff.mpr]
  · exact fun some_ => kept (List.getLast_mem some_)
  · exact fun some_ => kept (List.getElem_mem some_)

theorem colon_not_mem_lower : ':' ∉ u.scheme.map Char.toLower := by
  intro mem
  obtain ⟨c, own, lower⟩ := List.mem_map.mp mem
  exact u.colon_not_mem_scheme (eq_colon_of_toLower lower ▸ own)

theorem schemeName_iff : u.schemeName = "https" ↔ u.scheme.map Char.toLower = "https".toList := by
  rw [schemeName, ← String.toList_inj, String.toList_ofList]

theorem isHttps_text (some_ : u.host ≠ []) : isHttps u.text = true ↔ u.schemeName = "https" := by
  have length : u.text.toList.length = u.scheme.length + (3 + (u.authority.length + u.target.length)) := by
    rw [text_toList, List.length_append, List.length_append, List.length_append]
    rfl
  have lower : u.text.toList.map Char.toLower =
      u.scheme.map Char.toLower ++ ':' :: ("//".toList ++ (u.authority ++ u.target).map Char.toLower) := by
    rw [text_toList, List.map_append, List.map_append]
    rfl
  rw [schemeName_iff, isHttps, trim_text, Bool.and_eq_true, decide_eq_true_eq, decide_eq_true_eq, List.map_take, lower]
  constructor
  · rintro ⟨-, starts⟩
    obtain ⟨rest, whole⟩ := starts ▸ List.take_prefix 8 _
    have split := splitOnce_append ("//".toList ++ rest) (by decide : ':' ∉ "https".toList)
    rw [show "https".toList ++ ':' :: ("//".toList ++ rest) = "https://".toList ++ rest from rfl, whole,
      splitOnce_append _ u.colon_not_mem_lower] at split
    exact (Prod.ext_iff.mp (Option.some.inj split)).1
  · intro https
    have five : u.scheme.length = 5 := by rw [← List.length_map, https]; rfl
    have host : 0 < u.authority.length := by
      rw [authority, List.length_append, List.length_append]
      have := List.length_pos_of_ne_nil some_
      omega
    refine ⟨by omega, ?_⟩
    rw [https]
    rfl

/-- A hop is made exactly where the host is on the list, the scheme is https and the chain is not too long. -/
theorem judgeRedirect_text (n : ℕ) : judgeRedirect u.text n = .ok () ↔ u.Trusted ∧ n ≤ maxRedirects := by
  have some_ (listed : u.hostName ∈ redirectAllowlist) : u.host ≠ [] := by
    intro empty
    rw [hostName, empty] at listed
    exact absurd listed (by decide)
  by_cases listed : u.hostName ∈ redirectAllowlist
  · rw [judgeRedirect, if_neg (not_not.mpr (u.listed_iff.mpr listed))]
    by_cases https : isHttps u.text = true
    · rw [if_neg (by rw [https]; decide)]
      have trusted : u.Trusted := ⟨listed, (u.isHttps_text (some_ listed)).mp https⟩
      split
      next long => exact iff_of_false nofun fun ok => absurd ok.2 (Nat.not_le.mpr long)
      next short => exact iff_of_true rfl ⟨trusted, Nat.not_lt.mp short⟩
    · rw [if_pos (by rwa [Bool.not_eq_true', ← Bool.not_eq_true])]
      exact iff_of_false nofun fun ok => https ((u.isHttps_text (some_ listed)).mpr ok.1.https)
  · rw [judgeRedirect, if_pos (mt u.listed_iff.mp listed)]
    exact iff_of_false nofun fun ok => listed ok.1.host

end Url

theorem follow_text (hops : List Url) (asked : List String) : ∃ k ≤ hops.length,
    (follow asked (hops.map Url.text)).1 = asked ++ (hops.take k).map Url.text ∧ (∀ u ∈ hops.take k, u.Trusted) ∧
      (asked.length ≤ maxRedirects + 1 → asked.length + k ≤ maxRedirects + 1) := by
  induction hops generalizing asked with
  | nil => exact ⟨0, le_rfl, (List.append_nil _).symm, List.forall_mem_nil _, id⟩
  | cons next rest ih =>
    rw [List.map_cons, follow]
    cases judged : judgeRedirect next.text asked.length with
    | error refusal => exact ⟨0, Nat.zero_le _, (List.append_nil _).symm, List.forall_mem_nil _, id⟩
    | ok done =>
      obtain ⟨trusted, short⟩ := (next.judgeRedirect_text _).mp judged
      obtain ⟨k, le, eq, all, bound⟩ := ih (asked ++ [next.text])
      refine ⟨k + 1, Nat.succ_le_succ le, ?_, ?_, fun _ => ?_⟩
      · rw [eq, List.take_succ_cons, List.map_cons, List.append_assoc, List.singleton_append]
      · rw [List.take_succ_cons]
        exact List.forall_mem_cons.mpr ⟨trusted, all⟩
      · rw [List.length_append, List.length_singleton] at bound
        have := bound (by omega)
        omega

def released (v file : String) (plain : ∀ c ∈ v.toList ++ file.toList, Plain c) : Url where
  scheme := ['h', 't', 't', 'p', 's']
  userinfo := none
  host := "github.com".toList
  port := none
  path := "/alpha-neo-omega/PeerBeam/releases/download/v".toList ++ (v.toList ++ '/' :: file.toList)
  query := none
  fragment := none
  scheme_spelled := ⟨'h', _, rfl, by decide, List.all_iff_forall_prop.mp (by decide)⟩
  userinfo_spelled := nofun
  host_spelled := .inl (List.all_iff_forall_prop.mp (by decide))
  port_spelled := nofun
  path_spelled := by
    have spelled {c : Char} (mem : Plain c) : Visible c ∧ c ≠ '?' ∧ c ≠ '#' := by
      refine ⟨?_, mem.ne (by decide), mem.ne (by decide)⟩
      rcases mem with alphanum | sign
      · exact visible_of_isAlphanum alphanum
      · simp only [List.mem_cons, List.not_mem_nil, or_false] at sign
        rcases sign with rfl | rfl | rfl <;> decide
    refine ⟨fun c mem => ?_, .inr rfl⟩
    rw [List.mem_append, List.mem_append, List.mem_cons] at mem
    rcases mem with mem | mem | rfl | mem
    · exact List.all_iff_forall_prop.mp (by decide : "/alpha-neo-omega/PeerBeam/releases/download/v".toList.all
        (fun c => Visible c ∧ c ≠ '?' ∧ c ≠ '#') = true) c mem
    · exact spelled (plain c (List.mem_append_left _ mem))
    · decide
    · exact spelled (plain c (List.mem_append_right _ mem))
  query_spelled := nofun
  fragment_spelled := nofun

theorem text_released {v file : String} (plain : ∀ c ∈ v.toList ++ file.toList, Plain c) :
    (released v file plain).text = releaseDownloadBase ++ "/v" ++ v ++ "/" ++ file := by
  apply String.toList_injective
  rw [Url.text_toList]
  simp [released, Url.authority, Url.target, releaseDownloadBase]

theorem trusted_released {v file : String} (plain : ∀ c ∈ v.toList ++ file.toList, Plain c) :
    (released v file plain).Trusted where
  host := (by decide : String.ofList ("github.com".toList.map Char.toLower) ∈ redirectAllowlist)
  https := (by decide : String.ofList (['h', 't', 't', 'p', 's'].map Char.toLower) = "https")

/-- Nothing is asked for where the version is not one; else each address is one under the release. -/
theorem exists_released {os : Os} {arch : Arch} {linux : Option LinuxFormat} {version : String} {all : List String}
    (own : addresses os arch linux version = .ok all) {address : String} (mem : address ∈ all) :
    ∃ v file plain, releaseVersion version = .ok v ∧ (released v file plain).text = address := by
  rw [addresses] at own
  cases accepted : releaseVersion version with
  | error e => rw [accepted] at own; cases own
  | ok v =>
    cases named : assetName os arch linux version with
    | error e => rw [accepted, named] at own; cases own
    | ok name =>
      rw [accepted, named] at own
      cases own
      have under {file tail : String} (plain : ∀ c ∈ file.toList, Plain c) (spelled : "/" ++ file = tail) :
          ∃ v' file' plain, (.ok v : Except ResolveError String) = .ok v' ∧
            (released v' file' plain).text = releaseDownloadBase ++ "/v" ++ v ++ tail := by
        subst spelled
        refine ⟨v, file, fun c mem => ?_, rfl, (text_released _).trans String.append_assoc⟩
        rcases List.mem_append.mp mem with mem | mem
        · exact plain_of_releaseVersion accepted c mem
        · exact plain c mem
      rw [List.mem_cons, List.mem_cons, List.mem_singleton] at mem
      rcases mem with rfl | rfl | rfl
      · exact @under "SHA256SUMS" _ (List.all_iff_forall_prop.mp (by decide)) rfl
      · exact @under "SHA256SUMS.minisig" _ (List.all_iff_forall_prop.mp (by decide)) rfl
      · obtain ⟨v', file', plain, same, text⟩ := under (plain_of_assetName named) rfl
        exact ⟨v', file', plain, same, text.trans String.append_assoc.symm⟩

/-- What a served document says decides which version is asked for, and neither where nor what the file is called
beyond the version. -/
theorem requests_stay_on_list :
    (∀ version v, releaseVersion version = .ok v ↔
      ∃ n w, trim version.toList = List.replicate n 'v' ++ Version.text w ∧ v = String.ofList w.text) ∧
    (∀ os arch linux version name, assetName os arch linux version = .ok name → SingleComponent name) ∧
    (∀ os arch linux version version' name, assetName os arch linux version = .ok name →
      assetName os arch linux version' = .ok name → releaseVersion version = releaseVersion version') ∧
    (∀ (u : Url) n, judgeRedirect u.text n = .ok () ↔ u.Trusted ∧ n ≤ maxRedirects) ∧
    ∀ os arch linux version all, addresses os arch linux version = .ok all → ∀ address ∈ all,
      ∃ first : Url, first.text = address ∧ first.Trusted ∧ ∀ hops : List Url, ∃ k ≤ hops.length, k ≤ maxRedirects ∧
        (follow [address] (hops.map Url.text)).1 = address :: (hops.take k).map Url.text ∧
        ∀ u ∈ hops.take k, u.Trusted := by
  refine ⟨fun _ _ => releaseVersion_ok_iff, fun _ _ _ _ _ => singleComponent_of_assetName,
    fun _ _ _ _ _ _ => releaseVersion_eq_of_assetName, Url.judgeRedirect_text, fun os arch linux version all own => ?_⟩
  intro address mem
  obtain ⟨v, file, plain, -, text⟩ := exists_released own mem
  refine ⟨released v file plain, text, trusted_released plain, fun hops => ?_⟩
  obtain ⟨k, le, eq, trusted, bound⟩ := follow_text hops [address]
  have short := bound (Nat.le_add_left 1 maxRedirects)
  rw [List.length_singleton] at short
  exact ⟨k, le, by omega, eq, trusted⟩

/-- The package of one release, asked for where a redirect leads to another host. -/
theorem release_not_led_away : SingleComponent "peerbeam-0.12.0-amd64.deb" ∧
    (follow ["https://github.com/alpha-neo-omega/PeerBeam/releases/download/v0.12.0/SHA256SUMS"]
      ["https://github.com@release.example/SHA256SUMS"]).2 = some (.offHost "release.example") ∧
    ∃ first : Url, first.Trusted ∧
      first.text = "https://github.com/alpha-neo-omega/PeerBeam/releases/download/v0.12.0/SHA256SUMS" := by
  refine ⟨requests_stay_on_list.2.1 .linux .x86_64 (some .deb) "v0.12.0" _ (by decide), by decide, ?_⟩
  obtain ⟨first, text, trusted, -⟩ := requests_stay_on_list.2.2.2.2 .linux .x86_64 (some .deb) "v0.12.0" _ rfl _
    List.mem_cons_self
  exact ⟨first, trusted, text⟩

end PeerBeam.Update
