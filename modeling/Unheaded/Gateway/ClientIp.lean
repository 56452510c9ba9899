import Unheaded.Lib.Text

/-!
# The address of a client

`ClientIP` of the gateway reads `X-Forwarded-For` from the nearest hop outward, as far as the hops
are trusted proxies.
-/

namespace Unheaded.Gateway

open Lib List

/-- `net.IP` of sixteen bytes. -/
abbrev IP := List (BitVec 8)

/-- The octet that a field of a dotted address spells, without leading zeros. -/
def octet (field : Text) : Option (BitVec 8) :=
  if 1 < field.length ∧ field.head? = some '0' then none
  else
    match magnitude 10 field with
    | some n => if n ≤ 255 then some (BitVec.ofNat 8 n) else none
    | none => none

/-- `netip.parseIPv4Fields`: four octets with dots between them. -/
def parseIPv4Fields (s : Text) : Option (List (BitVec 8)) :=
  if (s.splitOn '.').length = 4 then (s.splitOn '.').mapM octet else none

def groupBytes (digits : Text) : List (BitVec 8) :=
  let n := (magnitude 16 digits).getD 0
  [BitVec.ofNat 8 (n / 256), BitVec.ofNat 8 n]

def isHex (c : Char) : Bool := (digitValue 16 c).isSome

/-- The loop of `netip.parseIPv6` over the groups: the bytes, where the ellipsis stands and what is left
of the text. -/
def parseGroups : Nat → Text → List (BitVec 8) → Option Nat →
    Option (List (BitVec 8) × Option Nat × Text)
  | 0, s, ip, ellipsis => some (ip, ellipsis, s)
  | fuel + 1, s, ip, ellipsis =>
    let digits := s.takeWhile isHex
    if digits = [] ∨ 4 < digits.length then none
    else
      match s.drop digits.length with
      | [] => some (ip ++ groupBytes digits, ellipsis, [])
      | '.' :: _ =>
        if ellipsis = none ∧ ip.length ≠ 12 ∨ 12 < ip.length then none
        else (parseIPv4Fields s).map fun v4 => (ip ++ v4, ellipsis, [])
      | [':'] => none
      | ':' :: ':' :: rest =>
        let ip := ip ++ groupBytes digits
        if ellipsis.isSome then none
        else if rest = [] then some (ip, some ip.length, [])
        else parseGroups fuel rest ip (some ip.length)
      | ':' :: rest => parseGroups fuel rest (ip ++ groupBytes digits) ellipsis
      | _ => none

/-- The sixteen bytes, with zeros for the ellipsis. -/
def expand : List (BitVec 8) × Option Nat × Text → Option IP
  | (ip, ellipsis, []) =>
    match ellipsis with
    | some k =>
      if ip.length < 16 then some (ip.take k ++ replicate (16 - ip.length) 0 ++ ip.drop k)
      else none
    | none => if ip.length < 16 then none else some ip
  | _ => none

/-- `netip.parseIPv6`, without zones. -/
def parseIPv6 (s : Text) : Option IP :=
  match s with
  | ':' :: ':' :: [] => some (replicate 16 0)
  | ':' :: ':' :: rest => (parseGroups 8 rest [] (some 0)).bind expand
  | _ => (parseGroups 8 s [] none).bind expand

def v4InV6Prefix : List (BitVec 8) := replicate 10 0 ++ [0xFF, 0xFF]

/-- `net.ParseIP`.  The first dot, colon or percent sign decides; an address with a zone is refused. -/
def parseIP (s : Text) : Option IP :=
  match s.find? fun c => c == '.' || c == ':' || c == '%' with
  | some '.' => (parseIPv4Fields s).map fun v4 => v4InV6Prefix ++ v4
  | some ':' => parseIPv6 s
  | _ => none

def groupsOf : IP → List Nat
  | high :: low :: rest => (high.toNat * 256 + low.toNat) :: groupsOf rest
  | _ => []

/-- The first of the longest runs of at least two zero groups: where it begins and its length. -/
def zeroRun (groups : List Nat) : Option (Nat × Nat) :=
  (range groups.length).foldl (fun best i =>
    let l := ((groups.drop i).takeWhile (· == 0)).length
    if 2 ≤ l ∧ (best.map Prod.snd).getD 0 < l then some (i, l) else best) none

def showGroups (groups : List Nat) : Text := [':'].intercalate (groups.map (showNat 16))

def IP.string (ip : IP) : Text :=
  if ip.take 12 = v4InV6Prefix then ['.'].intercalate ((ip.drop 12).map fun b => showNat 10 b.toNat)
  else
    let groups := groupsOf ip
    match zeroRun groups with
    | none => showGroups groups
    | some (i, l) => showGroups (groups.take i) ++ ':' :: ':' :: showGroups (groups.drop (i + l))

example : parseIP "2001:DB8::192.0.2.33".toList = some
    [0x20, 1, 0x0D, 0xB8, 0, 0, 0, 0, 0, 0, 0, 0, 192, 0, 2, 33] := by decide +kernel

example : (parseIP "1:0:0:2:0:0:0:3".toList).map IP.string = some "1:0:0:2::3".toList := by
  decide +kernel

/-- `net.SplitHostPort`: the host of an address with a port. -/
def splitHostPort (hostport : Text) : Option Text :=
  if ':' ∉ hostport then none
  else
    -- The index of the last colon.
    let i := hostport.length - 1 - hostport.reverse.idxOf ':'
    if hostport.head? = some '[' then
      let close := hostport.idxOf ']'
      if ']' ∉ hostport ∨ close + 1 ≠ i then none
      else if '[' ∈ hostport.drop 1 ∨ ']' ∈ hostport.drop (close + 1) then none
      else some ((hostport.take close).drop 1)
    else
      let host := hostport.take i
      if ':' ∈ host then none
      else if '[' ∈ hostport ∨ ']' ∈ hostport then none
      else some host

/-- `http.Request`, of which `header` has the lines of each name in its canonical form. -/
structure Request where
  remoteAddr : Text
  header : Text → List Text

variable (r : Request)

def peerHost : Text := (splitHostPort r.remoteAddr).getD r.remoteAddr

/-- `r.Header.Values("X-Forwarded-For")`. -/
def Request.forwardedFor : List Text := r.header "X-Forwarded-For".toList

/-- `r.Header.Get("X-Real-IP")`. -/
def Request.realIP : Text := (r.header "X-Real-Ip".toList).headD []

/-- The loop over the hops, the nearest one first; `host` is the last address known good. -/
def walkHops (trusted : Text → Bool) (host : Text) : List Text → Text
  | [] => host
  | hop :: rest =>
    match parseIP (trim hop) with
    | none => host
    | some ip => if trusted ip.string then walkHops trusted ip.string rest else ip.string

def clientIP (trusted : Text → Bool) (r : Request) : Text :=
  let host := peerHost r
  if trusted host = false then host
  else
    let xff := [','].intercalate r.forwardedFor
    if xff ≠ [] then walkHops trusted host (xff.splitOn ',').reverse
    else
      match parseIP r.realIP with
      | some ip => ip.string
      | none => host

def Request.entries : List Text := (r.forwardedFor.flatMap (·.splitOn ',')).map trim

theorem splitOn_intercalate_lines {lines : List Text} (some_line : lines ≠ []) :
    ([','].intercalate lines).splitOn ',' = lines.flatMap (·.splitOn ',') := by
  induction lines with
  | nil => exact absurd rfl some_line
  | cons line lines ih =>
    cases lines with
    | nil => simp
    | cons next lines =>
      have joined : [','].intercalate (line :: next :: lines) =
          line ++ ',' :: [','].intercalate (next :: lines) := by
        simp [List.intercalate]
      rw [joined, splitOn_append_cons_self, ih (cons_ne_nil next lines)]
      rfl

def Untrusted (trusted : Text → Bool) (entry : Text) : Prop :=
  ∃ ip, parseIP entry = some ip ∧ trusted ip.string = false

variable {trusted : Text → Bool} {entry : Text}

theorem walkHops_of_untrusted (untrusted : Untrusted trusted entry) {near : List Text}
    (parse : ∀ hop ∈ near, (parseIP hop).isSome) {hops₁ hops₂ far₁ far₂ : List Text}
    (split₁ : hops₁.map trim = near ++ entry :: far₁)
    (split₂ : hops₂.map trim = near ++ entry :: far₂) (host₁ host₂ : Text) :
    walkHops trusted host₁ hops₁ = walkHops trusted host₂ hops₂ := by
  induction near generalizing hops₁ hops₂ host₁ host₂ with
  | nil =>
    obtain ⟨hop₁, rest₁, rfl, trimmed₁, -⟩ := map_eq_cons_iff.mp split₁
    obtain ⟨hop₂, rest₂, rfl, trimmed₂, -⟩ := map_eq_cons_iff.mp split₂
    obtain ⟨ip, parsed, outside⟩ := untrusted
    simp only [walkHops, trimmed₁, trimmed₂, parsed, outside]
    rfl
  | cons hop near ih =>
    obtain ⟨hop₁, rest₁, rfl, trimmed₁, split₁⟩ := map_eq_cons_iff.mp split₁
    obtain ⟨hop₂, rest₂, rfl, trimmed₂, split₂⟩ := map_eq_cons_iff.mp split₂
    obtain ⟨ip, parsed⟩ := Option.isSome_iff_exists.mp (parse hop mem_cons_self)
    have next := ih (fun hop' mem => parse hop' (mem_cons_of_mem hop mem)) split₁ split₂
      ip.string ip.string
    simp only [walkHops, trimmed₁, trimmed₂, parsed, next]

theorem parseIP_nil : parseIP [] = none := rfl

theorem clientIP_of_entries {r : Request} (peer : trusted (peerHost r) = true)
    (untrusted : Untrusted trusted entry) (mem : entry ∈ r.entries) : clientIP trusted r =
      walkHops trusted (peerHost r) (r.forwardedFor.flatMap (·.splitOn ',')).reverse := by
  have some_line : r.forwardedFor ≠ [] := by
    intro none
    simp [Request.entries, none] at mem
  have lines := splitOn_intercalate_lines some_line
  have some_text : [','].intercalate r.forwardedFor ≠ [] := by
    intro empty
    -- The only entry would be the empty one, which is no address.
    rw [Request.entries, ← lines, empty] at mem
    obtain rfl := mem_singleton.mp mem
    obtain ⟨ip, parsed, -⟩ := untrusted
    cases parseIP_nil.symm.trans parsed
  rw [clientIP, if_neg (by rw [peer]; exact Bool.true_eq_false.mp), if_pos some_text, lines]

theorem map_trim_hops {r : Request} {left right : List Text}
    (entries : r.entries = left ++ entry :: right) :
    (r.forwardedFor.flatMap (·.splitOn ',')).reverse.map trim =
      right.reverse ++ entry :: left.reverse := by
  rw [map_reverse, ← Request.entries, entries, List.reverse_append, reverse_cons, List.append_assoc]
  rfl

/-- Two requests of one peer whose entries agree from an untrusted address on, all of them addresses,
are of one client, whatever stands to the left and in other headers; and a request of an untrusted peer is
of that peer. -/
theorem clientIP_decided (trusted : Text → Bool) :
    (∀ (r₁ r₂ : Request) (left₁ left₂ : List Text) (entry : Text) (right : List Text),
      peerHost r₁ = peerHost r₂ → r₁.entries = left₁ ++ entry :: right →
      r₂.entries = left₂ ++ entry :: right → Untrusted trusted entry →
      (∀ hop ∈ right, (parseIP hop).isSome) → clientIP trusted r₁ = clientIP trusted r₂) ∧
    ∀ r, trusted (peerHost r) = false → clientIP trusted r = peerHost r := by
  constructor
  · intro r₁ r₂ left₁ left₂ entry right peer entries₁ entries₂ untrusted parse
    cases known₁ : trusted (peerHost r₁) with
    | false =>
      have known₂ := peer ▸ known₁
      rw [clientIP, if_pos known₁, clientIP, if_pos known₂, peer]
    | true =>
      have known₂ := peer ▸ known₁
      have member₁ : entry ∈ r₁.entries := by
        rw [entries₁]
        exact mem_append_right _ mem_cons_self
      have member₂ : entry ∈ r₂.entries := by
        rw [entries₂]
        exact mem_append_right _ mem_cons_self
      rw [clientIP_of_entries known₁ untrusted member₁,
        clientIP_of_entries known₂ untrusted member₂]
      exact walkHops_of_untrusted untrusted (fun hop near => parse hop (mem_reverse.mp near))
        (map_trim_hops entries₁) (map_trim_hops entries₂) _ _
  · intro r unknown
    rw [clientIP, if_pos unknown]

def proxied (lines : List String) : Request where
  remoteAddr := "192.0.2.1:443".toList
  header name := if name = "X-Forwarded-For".toList then lines.map String.toList else []

def oneProxy (host : Text) : Bool := host == "192.0.2.1".toList

theorem clientIP_decided_lines : clientIP oneProxy (proxied ["203.0.113.66", "198.51.100.7"]) =
        clientIP oneProxy (proxied ["garbage, 198.51.100.7"]) ∧
      clientIP oneProxy (proxied ["203.0.113.66", "198.51.100.7"]) = "198.51.100.7".toList ∧
      clientIP (fun _ => false) (proxied ["203.0.113.66"]) = "192.0.2.1".toList := by
  refine ⟨?_, by decide +kernel, ?_⟩
  · exact (clientIP_decided oneProxy).1 _ _ ["203.0.113.66".toList] ["garbage".toList]
      "198.51.100.7".toList [] rfl (by decide +kernel) (by decide +kernel)
      ⟨_, rfl, by decide +kernel⟩ (fun hop member => absurd member not_mem_nil)
  · decide +kernel

end Unheaded.Gateway
