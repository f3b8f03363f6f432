import HaranaMatrix.Resolver.Address

/-!
# The resolution of server names

The ladder of `server-resolver/src/lib.rs`: an address, a host with a port, a name that a
`.well-known` document delegates to, an SRV record, and the name on the default port. The lookups
are left to the caller, so a resolution is a `Ladder`: a result, or a lookup and how to go on with
its answer. -/

namespace HaranaMatrix.Resolver

open Scanner Option

/-! ## The program -/

inductive FedDest where
  | literal (addr : SocketAddr)
  | named (host : Text) (port : ℕ)
deriving DecidableEq, Repr

def defaultPort : ℕ := 8448

def FedDest.parseLiteral (dest : Text) : Option FedDest :=
  match parseWith readSocketAddr dest with
  | some addr => some (.literal addr)
  | none => (parseWith readIpAddr dest).map fun addr => .literal (.new addr defaultPort)

structure SrvTarget where
  target : Text
  port : ℕ

structure ResolvedServer where
  destination : FedDest
  hostHeader : Text
  tlsName : Text

/-- A resolution that asks the two resolvers of the caller. -/
inductive Ladder where
  | done (server : ResolvedServer)
  | wellKnown (name : Text) (next : Option Text → Ladder)
  | srv (name : Text) (next : Option SrvTarget → Ladder)

/-- A call of a resolver. -/
inductive Call where
  | wellKnown (name : Text)
  | srv (name : Text)
deriving DecidableEq, Repr

/-- The result with two resolvers, and the calls that they get. -/
def Ladder.run (wellKnown : Text → Option Text) (srv : Text → Option SrvTarget) :
    Ladder → ResolvedServer × List Call
  | .done server => (server, [])
  | .wellKnown name next =>
    let r := (next (wellKnown name)).run wellKnown srv
    (r.1, .wellKnown name :: r.2)
  | .srv name next =>
    let r := (next (srv name)).run wellKnown srv
    (r.1, .srv name :: r.2)

def rsplitOnce (c : Char) (s : Text) : Option (Text × Text) :=
  if c ∈ s then some ((s.reverse.dropWhile (· ≠ c)).tail.reverse, (s.reverse.takeWhile (· ≠ c)).reverse) else none

def explicitPort (dest : Text) : Option ℕ := (rsplitOnce ':' dest).bind fun x => parseU16 x.2

def hostnameOf (dest : Text) : Text :=
  match rsplitOnce ':' dest with
  | some (host, port) => if (parseU16 port).isSome then host else dest
  | none => dest

def resolveDelegated (delegated : Text) : Ladder :=
  match FedDest.parseLiteral delegated with
  | some destination => .done ⟨destination, delegated, hostnameOf delegated⟩
  | none =>
    match explicitPort delegated with
    | some port => .done ⟨.named (hostnameOf delegated) port, delegated, hostnameOf delegated⟩
    | none =>
      .srv delegated fun
        | some target => .done ⟨.named target.target target.port, delegated, delegated⟩
        | none => .done ⟨.named delegated defaultPort, delegated, delegated⟩

def resolve (serverName : ServerName) : Ladder :=
  let name := serverName.text
  match FedDest.parseLiteral name with
  | some destination => .done ⟨destination, name, serverName.host⟩
  | none =>
    match explicitPort name with
    | some port => .done ⟨.named serverName.host port, name, serverName.host⟩
    | none =>
      .wellKnown name fun
        | some delegated => resolveDelegated delegated
        | none =>
          .srv name fun
            | some target => .done ⟨.named target.target target.port, name, name⟩
            | none => .done ⟨.named name defaultPort, name, name⟩

/-! ## Addresses that are recognised -/

/-- The port, if it is there, has no sign, and an IPv6 address has a port. -/
def ServerName.Recognised (name : ServerName) : Prop :=
  name.afterHost[1]? ≠ some '+' ∧ (name.text.head? = some '[' → name.afterHost ≠ [])

instance (name : ServerName) : Decidable name.Recognised := inferInstanceAs (Decidable (_ ∧ _))

section Parse

variable {host text ipv6 s : Text} {octets segments : List ℕ} {port : ℕ}

lemma readPort_nil : readPort [] = none := rfl

lemma readPort_colon (text : Text) : readPort (':' :: text) = readNumber 10 none true 65535 text := rfl

lemma readPort_plain (h : parseU16 text = some port) (hplain : text.head? ≠ some '+') :
    readPort (':' :: text) = some (port, []) := by
  obtain ⟨hne, hall, hle, rfl⟩ := parseU16_eq_some h
  rw [unsigned_of_head hplain] at hne hall hle ⊢
  exact readNumber_all hne hall hle

lemma readPort_sign (h : text.head? = some '+') : readPort (':' :: text) = none := by
  obtain ⟨text, rfl⟩ := List.head?_eq_some_iff.1 h
  have hsign : isDigit 10 '+' = false := by decide
  rw [readPort_colon]
  exact readNumber_none hsign _ _

lemma readGivenChar_of_head {c : Char} (h : s.head? ≠ some c) : readGivenChar c s = none := by
  cases s with
  | nil => rfl
  | cons d s => exact if_neg fun heq => h (by rw [heq, List.head?_cons])

lemma readIpv4Addr_append (h : readIpv4Addr host = some (octets, [])) {rest : Text}
    (hrest : rest = [] ∨ ∃ text, rest = ':' :: text) : readIpv4Addr (host ++ rest) = some (octets, rest) := by
  rcases hrest with rfl | ⟨text, rfl⟩
  · rw [List.append_nil, h]
  · rw [local_readIpv4Addr (by decide) (by decide) host text, h]
    rfl

lemma readSocketAddrV4_eq {rest : Text} (h : readIpv4Addr s = some (octets, rest)) :
    readSocketAddrV4 s = (readPort rest).map fun x => (.v4 octets x.1, x.2) := by
  show (readIpv4Addr s).bind _ = _
  rw [h, bind_some]
  show (readPort rest).bind _ = _
  cases readPort rest <;> rfl

lemma readSocketAddrV6_none (h : s.head? ≠ some '[') : readSocketAddrV6 s = none := by
  show (readGivenChar '[' s).bind _ = _
  rw [readGivenChar_of_head h]
  rfl

lemma readSocketAddrV6_eq (h : readIpv6Addr ipv6 = some (segments, [])) (rest : Text) :
    readSocketAddrV6 ('[' :: ipv6 ++ ']' :: rest) =
      (readPort rest).map fun x => (.v6 segments x.1 0 0, x.2) := by
  have hread : readIpv6Addr (ipv6 ++ ']' :: rest) = some (segments, ']' :: rest) := by
    rw [local_readIpv6Addr ipv6 rest, h]
    rfl
  show (readIpv6Addr (ipv6 ++ ']' :: rest)).bind _ = _
  rw [hread, bind_some]
  show (readPort rest).bind _ = _
  cases readPort rest <;> rfl

lemma readSocketAddr_v4 {rest : Text} (h : readIpv4Addr s = some (octets, rest))
    (hhead : s.head? ≠ some '[') :
    readSocketAddr s = (readPort rest).map fun x => (.v4 octets x.1, x.2) := by
  show (readSocketAddrV4 s <|> readSocketAddrV6 s) = _
  rw [readSocketAddrV4_eq h, readSocketAddrV6_none hhead]
  cases readPort rest <;> rfl

lemma readSocketAddr_v6 (h : readIpv6Addr ipv6 = some (segments, [])) (rest : Text) :
    readSocketAddr ('[' :: ipv6 ++ ']' :: rest) =
      (readPort rest).map fun x => (.v6 segments x.1 0 0, x.2) := by
  rw [← readSocketAddrV6_eq h rest]
  rfl

lemma readIpAddr_v4 {rest : Text} (h : readIpv4Addr s = some (octets, rest)) :
    readIpAddr s = some (.v4 octets, rest) := by
  have hmap : (IpAddr.v4 <$> readIpv4Addr : Scan IpAddr) s = some (.v4 octets, rest) := by
    show (readIpv4Addr s).bind (fun x => some (IpAddr.v4 x.1, x.2)) = _
    rw [h]
    rfl
  show ((IpAddr.v4 <$> readIpv4Addr : Scan IpAddr) s <|> (IpAddr.v6 <$> readIpv6Addr : Scan IpAddr) s) = _
  rw [hmap]
  rfl

end Parse

namespace FedDest

variable {host text ipv6 : Text} {octets segments : List ℕ} {port : ℕ}

section

variable (h : readIpv4Addr host = some (octets, []))
include h

lemma parseLiteral_v4 (hhead : host.head? ≠ some '[') : parseLiteral host =
    some (.literal (.v4 octets defaultPort)) := by
  simp only [parseLiteral, parseWith, readSocketAddr_v4 h hhead, readPort_nil, map_none,
    readIpAddr_v4 h, map_some]
  rfl

lemma parseLiteral_v4_port (hhead : (host ++ ':' :: text).head? ≠ some '[')
    (hport : readPort (':' :: text) = some (port, [])) :
    parseLiteral (host ++ ':' :: text) = some (.literal (.v4 octets port)) := by
  have hread := readIpv4Addr_append h (.inr ⟨text, rfl⟩)
  simp only [parseLiteral, parseWith, readSocketAddr_v4 hread hhead, hport, map_some]

lemma parseLiteral_v4_none (hhead : (host ++ ':' :: text).head? ≠ some '[')
    (hport : readPort (':' :: text) = none) : parseLiteral (host ++ ':' :: text) = none := by
  have hread := readIpv4Addr_append h (.inr ⟨text, rfl⟩)
  simp only [parseLiteral, parseWith, readSocketAddr_v4 hread hhead, hport, map_none, readIpAddr_v4 hread]

end

lemma parseLiteral_v6_port (h : readIpv6Addr ipv6 = some (segments, []))
    (hport : readPort (':' :: text) = some (port, [])) :
    parseLiteral ('[' :: ipv6 ++ ']' :: ':' :: text) = some (.literal (.v6 segments port 0 0)) := by
  simp only [parseLiteral, parseWith, readSocketAddr_v6 h, hport, map_some]

lemma parseLiteral_v6_none (h : readIpv6Addr ipv6 = some (segments, [])) {rest : Text}
    (hport : readPort rest = none) :
    parseLiteral ('[' :: ipv6 ++ ']' :: rest) = none := by
  simp only [parseLiteral, parseWith, readSocketAddr_v6 h, hport, map_none]
  rfl

end FedDest

section Port

variable {pre text : Text} {port : ℕ}

lemma explicitPort_colon (h : parseU16 text = some port) : explicitPort (pre ++ ':' :: text) = some port := by
  have hall : ∀ c ∈ text.reverse, decide (c ≠ ':') = true := fun c hc => by
    refine decide_eq_true fun heq => ?_
    exact absurd (mem_of_parseU16 h (List.mem_reverse.1 (heq ▸ hc))) (by decide)
  have hreverse : (pre ++ ':' :: text).reverse = text.reverse ++ ':' :: pre.reverse := by simp
  have htake : (pre ++ ':' :: text).reverse.takeWhile (· ≠ ':') = text.reverse := by
    rw [hreverse, takeWhile_append_stop (by decide), List.takeWhile_eq_self_iff.2 hall]
  rw [explicitPort, rsplitOnce, if_pos (by simp), bind_some, htake, List.reverse_reverse, h]

lemma explicitPort_bracket (pre : Text) : explicitPort (pre ++ [']']) = none := by
  unfold explicitPort rsplitOnce
  split
  · rw [bind_some]
    have hmem : ']' ∈ ((pre ++ [']']).reverse.takeWhile (· ≠ ':')).reverse := by
      simp
    cases hparse : parseU16 ((pre ++ [']']).reverse.takeWhile (· ≠ ':')).reverse with
    | none => rfl
    | some port => exact absurd (mem_of_parseU16 hparse hmem) (by decide)
  · rfl

end Port

/-! ## Resolution of addresses -/

section Resolve

variable {name : ServerName} {destination : FedDest} {port : ℕ} (wellKnown : Text → Option Text)
  (srv : Text → Option SrvTarget)

lemma run_literal (h : FedDest.parseLiteral name.text = some destination) :
    (resolve name).run wellKnown srv = (⟨destination, name.text, name.host⟩, []) := by
  simp only [resolve, h]
  rfl

lemma run_named (h : FedDest.parseLiteral name.text = none) (hport : explicitPort name.text = some port) :
    (resolve name).run wellKnown srv = (⟨.named name.host port, name.text, name.host⟩, []) := by
  simp only [resolve, h, hport]
  rfl

lemma run_delegated (h : FedDest.parseLiteral name.text = none) (hport : explicitPort name.text = none) :
    Call.wellKnown name.text ∈ ((resolve name).run wellKnown srv).2 := by
  simp only [resolve, h, hport]
  exact List.mem_cons_self

/-- **Which addresses are connected to directly.** A server name whose host is an address is
resolved to that address, with its port or the default port and without a lookup, exactly when it is
`Recognised`: an IPv6 address without a port is looked up, and a port with a sign makes a host name
of the address. -/
theorem resolve_ipLiteral_iff (name : ServerName) (h : name.isIpLiteral) (wellKnown : Text → Option Text)
    (srv : Text → Option SrvTarget) :
    ∃ ip, name.ip = some ip ∧
      ((((resolve name).run wellKnown srv).1.destination = .literal (.new ip (name.port.getD defaultPort)) ∧
        ((resolve name).run wellKnown srv).2 = []) ↔ name.Recognised) := by
  have hhead : ∀ {text : Text}, name.afterHost = ':' :: text → name.afterHost[1]? = text.head? := by
    intro text hafter
    rw [hafter, List.getElem?_cons_succ, List.head?_eq_getElem?]
  rcases name.ip_cases h with ⟨host, octets, htext, hread, hip, hbracket⟩ | ⟨ipv6, segments, htext, hread, hip⟩
  · refine ⟨_, hip, ?_⟩
    rcases name.afterHost_cases with ⟨hafter, hport⟩ | ⟨text, port, hafter, hparse, hport⟩
    · rw [hafter, List.append_nil] at htext
      rw [run_literal wellKnown srv (htext ▸ FedDest.parseLiteral_v4 hread (htext ▸ hbracket)), hport]
      exact iff_of_true ⟨rfl, rfl⟩ ⟨by simp [hafter], fun hb => absurd hb hbracket⟩
    · rw [hafter] at htext
      by_cases hplain : text.head? = some '+'
      · have hnone := FedDest.parseLiteral_v4_none hread (htext ▸ hbracket) (readPort_sign hplain)
        rw [run_named wellKnown srv (htext ▸ hnone) (htext ▸ explicitPort_colon hparse)]
        exact iff_of_false (fun h => by cases h.1) fun h => h.1 ((hhead hafter).trans hplain)
      · have hsome := FedDest.parseLiteral_v4_port hread (htext ▸ hbracket) (readPort_plain hparse hplain)
        rw [run_literal wellKnown srv (htext ▸ hsome), hport]
        exact iff_of_true ⟨rfl, rfl⟩ ⟨by rwa [hhead hafter], fun hb => absurd hb hbracket⟩
  · refine ⟨_, hip, ?_⟩
    have hb : name.text.head? = some '[' := by simp [htext]
    rcases name.afterHost_cases with ⟨hafter, hport⟩ | ⟨text, port, hafter, hparse, hport⟩
    · rw [hafter] at htext
      have hnone := FedDest.parseLiteral_v6_none hread readPort_nil
      have hcall := run_delegated wellKnown srv (htext ▸ hnone) (htext ▸ explicitPort_bracket ('[' :: ipv6))
      refine iff_of_false (fun h => ?_) fun h => h.2 hb hafter
      rw [h.2] at hcall
      cases hcall
    · rw [hafter] at htext
      by_cases hplain : text.head? = some '+'
      · have hnone := FedDest.parseLiteral_v6_none hread (readPort_sign hplain)
        have hexplicit : explicitPort name.text = some port := by
          rw [htext, show '[' :: ipv6 ++ ']' :: ':' :: text = ('[' :: ipv6 ++ [']']) ++ ':' :: text by simp]
          exact explicitPort_colon hparse
        rw [run_named wellKnown srv (htext ▸ hnone) hexplicit]
        exact iff_of_false (fun h => by cases h.1) fun h => h.1 ((hhead hafter).trans hplain)
      · have hsome := FedDest.parseLiteral_v6_port hread (readPort_plain hparse hplain)
        rw [run_literal wellKnown srv (htext ▸ hsome), hport]
        exact iff_of_true ⟨rfl, rfl⟩ ⟨by rwa [hhead hafter], fun _ => by simp [hafter]⟩

/-- The name `1.2.3.4:80`. -/
def ipv4Name : ServerName := ⟨['1', '.', '2', '.', '3', '.', '4', ':', '8', '0'], by decide⟩

theorem resolve_ipLiteral_iff_ipv4 :
    ipv4Name.Recognised ∧ ∃ ip, ipv4Name.ip = some ip ∧ ip = .v4 [1, 2, 3, 4] ∧
      ((resolve ipv4Name).run (fun _ => none) fun _ => none).1.destination = .literal (.new ip 80) := by
  obtain ⟨ip, hip, hiff⟩ := resolve_ipLiteral_iff ipv4Name (by decide) (fun _ => none) fun _ => none
  have hrecognised : ipv4Name.Recognised := by decide
  refine ⟨hrecognised, ip, hip, ?_, (hiff.2 hrecognised).1⟩
  exact Option.some.inj (hip.symm.trans (by decide))

/-- The name `[::1]`. -/
def ipv6Name : ServerName := ⟨['[', ':', ':', '1', ']'], by decide⟩

/-- The `.well-known` document of an IPv6 address is asked for, and leads to another host. -/
theorem resolve_ipv6_delegated :
    ipv6Name.isIpLiteral = true ∧ ipv6Name.ip = some (.v6 [0, 0, 0, 0, 0, 0, 0, 1]) ∧ ipv6Name.port = none ∧
      ((resolve ipv6Name).run (fun _ => some ['e', ':', '4', '4', '3']) fun _ => none).1.destination = .named ['e'] 443 ∧
      ((resolve ipv6Name).run (fun _ => some ['e', ':', '4', '4', '3']) fun _ => none).2 =
        [.wellKnown ipv6Name.text] := by
  decide

end Resolve

end HaranaMatrix.Resolver
