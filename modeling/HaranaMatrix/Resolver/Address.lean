import HaranaMatrix.Lib.Scanner

/-!
# Addresses and server names

The parsers of `std::net` for addresses, as scanners, and the validation of server names
(`common-identifiers-validation/src/server_name.rs`) that is built on them. A text is the list of
its characters. -/

namespace HaranaMatrix.Resolver

open Scanner List

abbrev Text := List Char

/-- `Ipv4Addr`, by its octets, or `Ipv6Addr`, by its segments. -/
inductive IpAddr where
  | v4 (octets : List ℕ)
  | v6 (segments : List ℕ)
deriving DecidableEq, Repr

inductive SocketAddr where
  | v4 (octets : List ℕ) (port : ℕ)
  | v6 (segments : List ℕ) (port flowinfo scopeId : ℕ)
deriving DecidableEq, Repr

def SocketAddr.new : IpAddr → ℕ → SocketAddr
  | .v4 octets, port => .v4 octets port
  | .v6 segments, port => .v6 segments port 0 0

/-! ## The parsers of `std::net` -/

def readOctet : Scan ℕ := readNumber 10 (some 3) false 255

def readIpv4Addr : Scan (List ℕ) := do
  let a ← readSeparator '.' 0 readOctet
  let b ← readSeparator '.' 1 readOctet
  let c ← readSeparator '.' 2 readOctet
  let d ← readSeparator '.' 3 readOctet
  pure [a, b, c, d]

/-- The two groups of an IPv4 address inside an IPv6 address. -/
def embedded (octets : List ℕ) : List ℕ :=
  [octets.getD 0 0 * 256 + octets.getD 1 0, octets.getD 2 0 * 256 + octets.getD 3 0]

/-- `read_groups`: at most `n` more groups, of which `i` were read, and whether an IPv4 address
ended them. -/
def readGroups : ℕ → ℕ → Scan (List ℕ × Bool)
  | 0, _ => pure ([], false)
  | n + 1, i =>
    (if 1 ≤ n then do
      let octets ← readSeparator ':' i readIpv4Addr
      pure (embedded octets, true)
    else failure) <|>
    (do
      let group ← readSeparator ':' i (readNumber 16 (some 4) true 65535)
      let rest ← readGroups n (i + 1)
      pure (group :: rest.1, rest.2)) <|>
    pure ([], false)

def readIpv6Addr : Scan (List ℕ) := do
  let (head, headIpv4) ← readGroups 8 0
  if head.length = 8 then pure head
  else if headIpv4 then failure
  else do
    readGivenChar ':'
    readGivenChar ':'
    let (tail, _) ← readGroups (8 - (head.length + 1)) 0
    pure (head ++ List.replicate (8 - head.length - tail.length) 0 ++ tail)

def readIpAddr : Scan IpAddr := (IpAddr.v4 <$> readIpv4Addr) <|> (IpAddr.v6 <$> readIpv6Addr)

def readPort : Scan ℕ := do
  readGivenChar ':'
  readNumber 10 none true 65535

def readScopeId : Scan ℕ := do
  readGivenChar '%'
  readNumber 10 none true (2 ^ 32 - 1)

def readSocketAddrV4 : Scan SocketAddr := do
  let ip ← readIpv4Addr
  let port ← readPort
  pure (.v4 ip port)

def readSocketAddrV6 : Scan SocketAddr := do
  readGivenChar '['
  let ip ← readIpv6Addr
  let scopeId ← readScopeId <|> pure 0
  readGivenChar ']'
  let port ← readPort
  pure (.v6 ip port 0 scopeId)

def readSocketAddr : Scan SocketAddr := readSocketAddrV4 <|> readSocketAddrV6

/-- A text without its sign. -/
def unsigned : Text → Text
  | '+' :: digits => digits
  | digits => digits

/-- `u16::from_str`, which allows a sign. -/
def parseU16 (s : Text) : Option ℕ :=
  if unsigned s ≠ [] ∧ (unsigned s).all (isDigit 10) ∧ ofDigits 10 (unsigned s) ≤ 65535 then some (ofDigits 10 (unsigned s))
  else none

/-! ## Server names -/

/-- A host and what follows it, as `validate` separates them. -/
def splitHost (s : Text) : Option (Text × Text) :=
  match s with
  | '[' :: rest =>
    if ']' ∈ rest then
      let ipv6 := rest.takeWhile (· ≠ ']')
      if (parseWith readIpv6Addr ipv6).isSome then some ('[' :: ipv6 ++ [']'], (rest.dropWhile (· ≠ ']')).tail) else none
    else none
  | s =>
    let host := s.takeWhile (· ≠ ':')
    if host = [] ∨ host.any (fun c => !(c.isAlphanum || c = '-' || c = '.')) then none
    else some (host, s.dropWhile (· ≠ ':'))

def validate (s : Text) : Bool :=
  match splitHost s with
  | none => false
  | some (_, []) => true
  | some (_, c :: port) => c = ':' && (parseU16 port).isSome

/-- A server name is a text that was validated. -/
structure ServerName where
  text : Text
  valid : validate text = true

namespace ServerName

variable (name : ServerName)

/-- `ServerName::host`; it does not validate again. -/
def host : Text :=
  if ']' ∈ name.text then name.text.takeWhile (· ≠ ']') ++ [']'] else name.text.takeWhile (· ≠ ':')

/-- What follows the host. -/
def afterHost : Text :=
  if ']' ∈ name.text then (name.text.dropWhile (· ≠ ']')).tail else name.text.dropWhile (· ≠ ':')

def port : Option ℕ := parseU16 name.afterHost.tail

def isIpLiteral : Bool :=
  (parseWith readIpv4Addr name.host).isSome || name.text.head? = some '['

/-- The address that a name states: an IPv6 address in brackets, or an IPv4 address. -/
def ip : Option IpAddr :=
  if name.text.head? = some '[' then (parseWith readIpv6Addr (name.text.tail.takeWhile (· ≠ ']'))).map .v6
  else (parseWith readIpv4Addr name.host).map .v4

end ServerName

/-! ## Locality -/

lemma local_readIpv4Addr {stop : Char} (hdot : '.' ≠ stop) (hdigit : isDigit 10 stop = false) :
    Local stop readIpv4Addr := by
  have hoctet : ∀ i, Local stop (readSeparator '.' i readOctet) := fun i =>
    (Local.readNumber hdigit _ _ _).readSeparator hdot i
  exact (hoctet 0).bind fun a => (hoctet 1).bind fun b => (hoctet 2).bind fun c => (hoctet 3).bind fun d => Local.pure _

lemma local_failure {α : Type} {stop : Char} : Local stop (failure : Scan α) := fun _ _ => rfl

lemma local_readGroups (n i : ℕ) : Local ']' (readGroups n i) := by
  induction n generalizing i with
  | zero => exact Local.pure _
  | succ n ih =>
    refine Local.orElse ?_ (Local.orElse ?_ (Local.pure _))
    · split
      · exact ((local_readIpv4Addr (by decide) (by decide)).readSeparator (by decide) i).bind fun octets => Local.pure _
      · exact local_failure
    · exact ((Local.readNumber (by decide) _ _ _).readSeparator (by decide) i).bind fun group =>
        (ih (i + 1)).bind fun rest => Local.pure _

lemma local_readIpv6Addr : Local ']' readIpv6Addr := by
  refine (local_readGroups 8 0).bind ?_
  rintro ⟨head, headIpv4⟩
  dsimp only
  split
  · exact Local.pure _
  split
  · exact local_failure
  · refine (Local.readGivenChar (by decide)).bind fun _ => (Local.readGivenChar (by decide)).bind fun _ => ?_
    exact (local_readGroups _ 0).bind fun tail => Local.pure _

/-! ## The parts of a server name -/

lemma eq_unsigned (s : Text) : s = unsigned s ∨ s = '+' :: unsigned s := by
  unfold unsigned
  split
  · exact .inr rfl
  · exact .inl rfl

lemma unsigned_of_head {s : Text} (h : s.head? ≠ some '+') : unsigned s = s := by
  rcases eq_unsigned s with hs | hs
  · exact hs.symm
  · rw [hs] at h
    exact absurd rfl h

lemma parseU16_eq_some {s : Text} {port : ℕ} (h : parseU16 s = some port) :
    unsigned s ≠ [] ∧ (∀ c ∈ unsigned s, isDigit 10 c) ∧ ofDigits 10 (unsigned s) ≤ 65535 ∧
      ofDigits 10 (unsigned s) = port := by
  obtain ⟨⟨hne, hall, hle⟩, hport⟩ := Option.ite_none_right_eq_some.1 h
  exact ⟨hne, all_eq_true.1 hall, hle, Option.some.inj hport⟩

lemma mem_of_parseU16 {s : Text} {port : ℕ} (h : parseU16 s = some port) {c : Char} (hc : c ∈ s) :
    isDigit 10 c ∨ c = '+' := by
  obtain ⟨-, hall, -⟩ := parseU16_eq_some h
  rcases eq_unsigned s with hs | hs
  · exact .inl (hall c (hs ▸ hc))
  · rw [hs] at hc
    rcases mem_cons.1 hc with rfl | hc
    · exact .inr rfl
    · exact .inl (hall c hc)

/-- A name is a host and at most a port. -/
inductive Parts : Text → Text → Text → Prop
  | ipv6 {ipv6 rest : Text} {segments : List ℕ} (hparse : parseWith readIpv6Addr ipv6 = some segments)
      (hbracket : ']' ∉ ipv6) : Parts ('[' :: ipv6 ++ ']' :: rest) ('[' :: ipv6 ++ [']']) rest
  | named {host rest : Text} (hne : host ≠ []) (hhost : ∀ c ∈ host, c.isAlphanum ∨ c = '-' ∨ c = '.')
      (hrest : rest = [] ∨ ∃ port, rest = ':' :: port) : Parts (host ++ rest) host rest

lemma takeWhile_append_dropWhile_tail {c : Char} {s : Text} (h : c ∈ s) :
    s = s.takeWhile (· ≠ c) ++ c :: (s.dropWhile (· ≠ c)).tail := by
  induction s with
  | nil => cases h
  | cons d s ih =>
    by_cases hd : d = c
    · simp [hd]
    · have hs : c ∈ s := (mem_cons.1 h).resolve_left (Ne.symm hd)
      simpa [hd] using ih hs

lemma dropWhile_ne_cases (c : Char) (s : Text) :
    s.dropWhile (· ≠ c) = [] ∨ ∃ t, s.dropWhile (· ≠ c) = c :: t := by
  induction s with
  | nil => exact .inl rfl
  | cons d s ih =>
    by_cases hd : d = c
    · exact .inr ⟨s, by simp [hd]⟩
    · simpa [hd] using ih

lemma notMem_takeWhile {c : Char} {s : Text} : c ∉ s.takeWhile (· ≠ c) := fun h => by
  simpa using mem_takeWhile_imp h

lemma parts_of_splitHost {s host rest : Text} (h : splitHost s = some (host, rest)) : Parts s host rest := by
  unfold splitHost at h
  split at h
  next tail =>
    split at h
    next hmem =>
      simp only at h
      split at h
      next hsome =>
        obtain ⟨segments, hparse⟩ := Option.isSome_iff_exists.1 hsome
        cases h
        have hsplit := takeWhile_append_dropWhile_tail hmem
        have hparts : Parts ('[' :: tail.takeWhile (· ≠ ']') ++ ']' :: (tail.dropWhile (· ≠ ']')).tail) _ _ :=
          .ipv6 hparse notMem_takeWhile
        rwa [cons_append, ← hsplit] at hparts
      next => cases h
    next => cases h
  next hbracket =>
    simp only at h
    split at h
    next => cases h
    next hok =>
      cases h
      push Not at hok
      have hhost : ∀ c ∈ s.takeWhile (· ≠ ':'), c.isAlphanum ∨ c = '-' ∨ c = '.' := by
        intro c hc
        by_contra hnot
        push Not at hnot
        exact hok.2 (any_eq_true.2 ⟨c, hc, by simp [hnot]⟩)
      have hparts := Parts.named hok.1 hhost (dropWhile_ne_cases ':' s)
      rwa [takeWhile_append_dropWhile] at hparts

namespace ServerName

lemma exists_parts (name : ServerName) :
    ∃ host rest, Parts name.text host rest ∧
      (rest = [] ∨ ∃ text port, rest = ':' :: text ∧ parseU16 text = some port) := by
  have hvalid := name.valid
  unfold validate at hvalid
  split at hvalid
  next => cases hvalid
  next host hsplit => exact ⟨host, [], parts_of_splitHost hsplit, .inl rfl⟩
  next host c text hsplit =>
    simp only [Bool.and_eq_true, decide_eq_true_eq] at hvalid
    obtain ⟨rfl, hport⟩ := hvalid
    obtain ⟨port, hport⟩ := Option.isSome_iff_exists.1 hport
    exact ⟨host, _, parts_of_splitHost hsplit, .inr ⟨text, port, rfl, hport⟩⟩

section Parts

variable {name : ServerName} {host rest ipv6 : Text}

lemma takeWhile_of_bracket (h : name.text = '[' :: ipv6 ++ ']' :: rest) (hbracket : ']' ∉ ipv6) :
    name.text.takeWhile (· ≠ ']') = '[' :: ipv6 ∧ name.text.dropWhile (· ≠ ']') = ']' :: rest := by
  have hall : ∀ c ∈ '[' :: ipv6, decide (c ≠ ']') = true := by
    intro c hc
    rcases mem_cons.1 hc with rfl | hc
    · decide
    · exact decide_eq_true fun heq => hbracket (heq ▸ hc)
  rw [h, takeWhile_append_stop (by decide), dropWhile_append_stop (by decide)]
  rw [takeWhile_eq_self_iff.2 hall, dropWhile_eq_nil_iff.2 hall]
  exact ⟨rfl, rfl⟩

lemma bracketed (h : name.text = '[' :: ipv6 ++ ']' :: rest) (hbracket : ']' ∉ ipv6) :
    name.afterHost = rest ∧ name.ip = (parseWith readIpv6Addr ipv6).map .v6 := by
  have hmem : ']' ∈ name.text := by simp [h]
  obtain ⟨htake, hdrop⟩ := takeWhile_of_bracket h hbracket
  have htail : name.text.tail.takeWhile (· ≠ ']') = ipv6 := by
    have hcons : name.text = '[' :: name.text.tail := by simp [h]
    rw [hcons, takeWhile_cons_of_pos (by decide)] at htake
    exact tail_eq_of_cons_eq htake
  constructor
  · rw [afterHost, if_pos hmem, hdrop, tail_cons]
  · rw [ip, if_pos (by simp [h]), htail]

lemma unbracketed (h : name.text = host ++ rest) (hne : host ≠ [])
    (hhost : ∀ c ∈ host, c.isAlphanum ∨ c = '-' ∨ c = '.')
    (hrest : rest = [] ∨ ∃ text port, rest = ':' :: text ∧ parseU16 text = some port) :
    name.host = host ∧ name.afterHost = rest ∧ name.text.head? ≠ some '[' := by
  have hnot : ∀ c, ¬ (c.isAlphanum ∨ c = '-' ∨ c = '.') → c ∉ host := fun c hc hmem => hc (hhost c hmem)
  have hbracket : ']' ∉ name.text := by
    rw [h, mem_append]
    rintro (hmem | hmem)
    · exact hnot ']' (by decide) hmem
    · rcases hrest with rfl | ⟨text, port, rfl, hport⟩
      · cases hmem
      · rcases mem_cons.1 hmem with hcolon | hmem
        · exact absurd hcolon (by decide)
        · exact absurd (mem_of_parseU16 hport hmem) (by decide)
  have hall : ∀ c ∈ host, decide (c ≠ ':') = true := by
    intro c hc
    exact decide_eq_true fun heq => hnot ':' (by decide) (heq ▸ hc)
  have hsplit : name.text.takeWhile (· ≠ ':') = host ∧ name.text.dropWhile (· ≠ ':') = rest := by
    rw [h]
    rcases hrest with rfl | ⟨text, port, rfl, -⟩
    · rw [append_nil]
      exact ⟨takeWhile_eq_self_iff.2 hall, dropWhile_eq_nil_iff.2 hall⟩
    · rw [takeWhile_append_stop (by decide), dropWhile_append_stop (by decide), dropWhile_eq_nil_iff.2 hall]
      exact ⟨takeWhile_eq_self_iff.2 hall, rfl⟩
  refine ⟨by rw [ServerName.host, if_neg hbracket, hsplit.1], by rw [afterHost, if_neg hbracket, hsplit.2], fun hhead => ?_⟩
  obtain ⟨c, host, rfl⟩ := exists_cons_of_ne_nil hne
  rw [h, cons_append, List.head?_cons, Option.some.injEq] at hhead
  exact hnot '[' (by decide) (hhead ▸ mem_cons_self)

end Parts

lemma afterHost_cases (name : ServerName) :
    (name.afterHost = [] ∧ name.port = none) ∨
      ∃ text port, name.afterHost = ':' :: text ∧ parseU16 text = some port ∧ name.port = some port := by
  obtain ⟨host, rest, hparts, hrest⟩ := name.exists_parts
  have hafter : name.afterHost = rest := by
    generalize htext : name.text = text at hparts
    cases hparts with
    | ipv6 _ hbracket => exact (bracketed htext hbracket).1
    | named hne hhost _ => exact (unbracketed htext hne hhost hrest).2.1
  rcases hrest with rfl | ⟨text, port, rfl, hport⟩
  · exact .inl ⟨hafter, by rw [ServerName.port, hafter]; rfl⟩
  · exact .inr ⟨text, port, hafter, hport, by rw [ServerName.port, hafter, tail_cons, hport]⟩

/-- **A name whose host is an address.** -/
theorem ip_cases (name : ServerName) (h : name.isIpLiteral) :
    (∃ host octets, name.text = host ++ name.afterHost ∧ readIpv4Addr host = some (octets, []) ∧
      name.ip = some (.v4 octets) ∧ name.text.head? ≠ some '[') ∨
    ∃ ipv6 segments, name.text = '[' :: ipv6 ++ ']' :: name.afterHost ∧
      readIpv6Addr ipv6 = some (segments, []) ∧ name.ip = some (.v6 segments) := by
  obtain ⟨host, rest, hparts, hrest⟩ := name.exists_parts
  generalize htext : name.text = text at hparts
  cases hparts with
  | @ipv6 ipv6 rest segments hparse hbracket =>
    obtain ⟨hafter, hip⟩ := bracketed htext hbracket
    refine .inr ⟨ipv6, segments, by rw [hafter], parseWith_eq_some.1 hparse, ?_⟩
    rw [hip, hparse, Option.map_some]
  | named hne hhost _ =>
    obtain ⟨hhost', hafter, hhead⟩ := unbracketed htext hne hhost hrest
    rw [isIpLiteral, hhost', Bool.or_eq_true] at h
    obtain ⟨octets, hparse⟩ := Option.isSome_iff_exists.1 (h.resolve_right (by simpa using hhead))
    refine .inl ⟨host, octets, by rw [hafter], parseWith_eq_some.1 hparse, ?_, htext ▸ hhead⟩
    rw [ip, if_neg hhead, hhost', hparse, Option.map_some]

end ServerName

end HaranaMatrix.Resolver
