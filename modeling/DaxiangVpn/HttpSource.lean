import DaxiangVpn.FetchHeaders
import DaxiangVpn.HttpAdmission

/-!
# Source addresses of requests

Behind a proxy on the loopback address the source of a request is taken from the lines that the
proxies of its way have written. Texts are bytes; what trimming does beyond ASCII is left open.
-/

namespace DaxiangVpn.HttpSource

open Base64Url FetchHeaders NetipPrefix List
open HttpAdmission (Admission Context badRequest canonical unmap)

def maxXFFBytes : ℕ := 512

def maxXFFHops : ℕ := 8

def errSource : String := "invalid client source"

inductive SourcePolicy
  | direct
  | loopbackProxy
  /-- Any other number. -/
  | invalid
  deriving DecidableEq

structure Request where
  remoteAddr : Bytes
  header : String → List Bytes

/-- `net.SplitHostPort`, of which only the host is used. -/
def splitHostPort (s : Bytes) : Option Bytes :=
  let port := (s.reverse.takeWhile (· ≠ 58)).reverse
  let before := s.take (s.length - port.length - 1)
  let plain := fun text : Bytes => text.all fun c => c ≠ 91 ∧ c ≠ 93
  if 58 ∉ s then none
  else if before.head? = some 91 then
    if before.getLast? = some 93 ∧ plain before.tail.dropLast ∧ plain port then
      some before.tail.dropLast else none
  else if 58 ∈ before ∨ plain before = false ∨ plain port = false then none
  else some before

def parseAddress (value : Bytes) : Option Addr :=
  (parseAddr (value.map fun c => Char.ofNat c.toNat)).map unmap

/-- `127.0.0.1` or `::1`. -/
def knownProxy (ip : Addr) : Bool :=
  ip.family = .v4 ∧ ip.value = 127 * 2 ^ 24 + 1 ∨ ip.family = .v6 ∧ ip.value = 1

/-- The peer of the connection. -/
def Request.remote (r : Request) : Option Addr :=
  parseAddress ((splitHostPort r.remoteAddr).getD r.remoteAddr)

/-- The lines of `X-Forwarded-For`. -/
def Request.forwarded (r : Request) : List Bytes := r.header "X-Forwarded-For"

/-- The loop over the lengths of the lines. -/
def fits : ℕ → List Bytes → Bool
  | _, [] => true
  | size, v :: rest => if maxXFFBytes < size + v.length then false
      else fits (size + v.length + 1) rest

/-- The hops of all lines. -/
def hopList (values : List Bytes) : List Bytes := ([44].intercalate values).splitOn 44

def parseHops (u : Unicode) (values : List Bytes) : Option (List Addr) :=
  (hopList values).mapM fun part => parseAddress (trimSpace u part)

/-- The loop over the hops, from the last one on. -/
def firstSource : List Addr → Option Addr
  | [] => none
  | ip :: rest => if !knownProxy ip || rest.isEmpty then some ip else firstSource rest

def forwardedSource (u : Unicode) (values : List Bytes) : Option Addr :=
  if fits 0 values = false ∨ maxXFFHops < (hopList values).length then none
  else (parseHops u values).bind fun hops => firstSource hops.reverse

def clientSource (u : Unicode) (r : Request) (policy : SourcePolicy) : Except String (List Char) :=
  let source : Option Addr :=
    if policy = .invalid then none
    else r.remote.bind fun remote =>
      if policy = .direct ∨ knownProxy remote = false ∨ r.forwarded = [] then some remote
      else forwardedSource u r.forwarded
  match source with
  | none => .error errSource
  | some ip => .ok ip.text

inductive ClientIngress
  | compat
  | trustedProxy
  /-- Any other value. -/
  | invalid

/-- `clientIP`, empty for an error. -/
def clientIP (u : Unicode) (r : Request) : List Char :=
  ((clientSource u r .direct).toOption).getD []

def clientIPForIngress (u : Unicode) (r : Request) : ClientIngress → Except String (List Char)
  | .compat => clientSource u r .direct
  | .trustedProxy => clientSource u r .loopbackProxy
  | .invalid => .error "invalid client ingress"

/-! ## What a client can choose -/

/-- The request comes from a known proxy and has been forwarded. -/
def Request.Proxied (r : Request) : Prop :=
  (∃ ip, r.remote = some ip ∧ knownProxy ip = true) ∧ r.forwarded ≠ []

/-- The hop that counts: those to the right of it are known proxies, and it is none or the first
one. -/
structure Decides (left : List Addr) (ip : Addr) (right : List Addr) : Prop where
  passed : ∀ a ∈ right, knownProxy a = true
  stops : knownProxy ip = false ∨ left = []

/-- What decides the source of a request. -/
structure Unforgeable (u : Unicode) : Prop where
  /-- Headers have no influence on requests that come directly or from another address. -/
  direct : ∀ (r : Request) (policy : SourcePolicy) (header : String → List Bytes),
    policy = .direct ∨ (∀ ip, r.remote = some ip → knownProxy ip = false) →
      clientSource u { r with header := header } policy = clientSource u r policy
  compat : ∀ (r : Request) (header : String → List Bytes),
    clientIP u { r with header := header } = clientIP u r ∧
    clientIPForIngress u { r with header := header } .compat = clientIPForIngress u r .compat
  /-- How the hops are spread over lines is of no consequence. -/
  joined : ∀ r r' : Request, r.Proxied → r'.Proxied → hopList r.forwarded = hopList r'.forwarded →
    clientSource u r .loopbackProxy = clientSource u r' .loopbackProxy
  hop : ∀ (r : Request) (source : List Char), r.Proxied →
    clientSource u r .loopbackProxy = .ok source →
    ∃ left ip right, parseHops u r.forwarded = some (left ++ ip :: right) ∧ Decides left ip right ∧
    source = ip.text
  /-- Nothing to the left of that hop has an influence. -/
  agree : ∀ (r r' : Request) (source source' : List Char) (left left' : List Addr) (ip : Addr)
    (right : List Addr), r.Proxied → r'.Proxied → clientSource u r .loopbackProxy = .ok source →
    clientSource u r' .loopbackProxy = .ok source' →
    parseHops u r.forwarded = some (left ++ ip :: right) →
    parseHops u r'.forwarded = some (left' ++ ip :: right) → Decides left ip right →
    Decides left' ip right →
    source = source'

section

variable {u : Unicode} {left right : List Addr} {ip : Addr}
  {values values' : List Bytes} {r : Request}

theorem exists_decides {hops : List Addr} (h : hops ≠ []) :
    ∃ left ip right, hops = left ++ ip :: right ∧ Decides left ip right := by
  induction hops with
  | nil => exact absurd rfl h
  | cons a rest ih =>
    by_cases hrest : rest = []
    · exact ⟨[], a, [], by rw [hrest]; rfl, by simp, .inr rfl⟩
    obtain ⟨left, ip, right, rfl, hdecides⟩ := ih hrest
    rcases hdecides.stops with hip | rfl
    · exact ⟨a :: left, ip, right, rfl, hdecides.passed, .inl hip⟩
    · cases hip : knownProxy ip with
      | false => exact ⟨[a], ip, right, rfl, hdecides.passed, .inl hip⟩
      | true =>
        exact ⟨[], a, ip :: right, rfl, forall_mem_cons.mpr ⟨hip, hdecides.passed⟩, .inr rfl⟩

theorem firstSource_append (hright : ∀ a ∈ right, knownProxy a = true)
    (hip : knownProxy ip = false ∨ left = []) :
    firstSource (right ++ ip :: left) = some ip := by
  induction right with
  | nil => exact if_pos (by rcases hip with hip | hip <;> simp [hip])
  | cons a right ih =>
    rw [forall_mem_cons] at hright
    rw [cons_append, firstSource, if_neg (by simp [hright.1])]
    exact ih hright.2

theorem Decides.firstSource (h : Decides left ip right) :
    firstSource (left ++ ip :: right).reverse = some ip := by
  rw [reverse_append, reverse_cons, append_assoc]
  exact firstSource_append (fun a ha => h.passed a (mem_reverse.mp ha))
    (h.stops.imp_right reverse_eq_nil_iff.mpr)

/-- The limit is one of the lines joined by commas. -/
theorem fits_cons (size : ℕ) (v : Bytes) (rest : List Bytes) :
    fits size (v :: rest) =
      decide (size + ([44].intercalate (v :: rest)).length ≤ maxXFFBytes) := by
  induction rest generalizing size v with
  | nil =>
    rw [fits, intercalate_singleton, fits]
    split <;> simp_all
  | cons w rest ih =>
    rw [fits, ih, intercalate_cons_cons, length_append, length_append, length_singleton]
    split
    · exact (decide_eq_false (by omega)).symm
    · simp only [Nat.add_assoc]

theorem forwardedSource_congr (hvalues : values ≠ []) (hvalues' : values' ≠ [])
    (h : hopList values = hopList values') :
    forwardedSource u values = forwardedSource u values' := by
  have hjoined : [44].intercalate values = [44].intercalate values' := by
    have hback : ∀ text : Bytes, [44].intercalate (text.splitOn 44) = text :=
      fun _ => intercalate_splitOn 44
    rw [← hback ([44].intercalate values), ← hback ([44].intercalate values')]
    exact congrArg _ h
  obtain ⟨v, rest, rfl⟩ := exists_cons_of_ne_nil hvalues
  obtain ⟨v', rest', rfl⟩ := exists_cons_of_ne_nil hvalues'
  unfold forwardedSource parseHops
  rw [fits_cons, fits_cons, hjoined, h]

theorem forwardedSource_hops (h : forwardedSource u values = some ip) :
    ∃ hops, parseHops u values = some hops ∧ firstSource hops.reverse = some ip := by
  unfold forwardedSource at h
  split at h
  · cases h
  · exact Option.bind_eq_some_iff.mp h

theorem forwardedSource_decides (h : forwardedSource u values = some ip) :
    ∃ left right, parseHops u values = some (left ++ ip :: right) ∧ Decides left ip right := by
  obtain ⟨hops, hparsed, hfirst⟩ := forwardedSource_hops h
  have hne : hops ≠ [] := by
    rintro rfl
    cases hfirst
  obtain ⟨left, ip', right, rfl, hdecides⟩ := exists_decides hne
  cases hdecides.firstSource.symm.trans hfirst
  exact ⟨left, right, hparsed, hdecides⟩

theorem Decides.forwardedSource (h : Decides left ip right)
    (hparsed : parseHops u values = some (left ++ ip :: right)) {a : Addr}
    (ha : forwardedSource u values = some a) : a = ip := by
  obtain ⟨hops, hparsed', hfirst⟩ := forwardedSource_hops ha
  cases hparsed.symm.trans hparsed'
  exact Option.some.inj (hfirst.symm.trans h.firstSource)

theorem clientSource_proxied (h : r.Proxied) : clientSource u r .loopbackProxy =
    match forwardedSource u r.forwarded with
    | none => .error errSource
    | some ip => .ok ip.text := by
  obtain ⟨remote, hremote, hknown⟩ := h.1
  simp [clientSource, hremote, hknown, h.2]

theorem clientSource_ok {source : List Char} (h : r.Proxied)
    (hok : clientSource u r .loopbackProxy = .ok source) :
    ∃ ip, forwardedSource u r.forwarded = some ip ∧ source = ip.text := by
  rw [clientSource_proxied h] at hok
  cases hs : forwardedSource u r.forwarded with
  | none =>
    rw [hs] at hok
    cases hok
  | some ip =>
    rw [hs] at hok
    cases hok
    exact ⟨ip, rfl, rfl⟩

theorem clientSource_header {policy : SourcePolicy} (header : String → List Bytes)
    (h : policy = .direct ∨ ∀ ip, r.remote = some ip → knownProxy ip = false) :
    clientSource u { r with header := header } policy = clientSource u r policy := by
  have hremote : Request.remote { r with header := header } = r.remote := rfl
  unfold clientSource
  rw [hremote]
  cases hr : r.remote with
  | none => rfl
  | some remote =>
    rcases h with h | h
    · simp [h]
    · simp [h remote hr]

end

/-- A client does not choose its source: it is a hop to the left of known proxies only, or the first
one if all are. -/
theorem clientSource_unforgeable (u : Unicode) : Unforgeable u where
  direct _ _ header h := clientSource_header header h
  compat r header := by
    have hdirect : clientSource u { r with header := header } .direct = clientSource u r .direct :=
      clientSource_header header (.inl rfl)
    exact ⟨congrArg (fun x => x.toOption.getD []) hdirect, hdirect⟩
  joined r r' h h' heq := by
    rw [clientSource_proxied h, clientSource_proxied h', forwardedSource_congr h.2 h'.2 heq]
  hop r source h hok := by
    obtain ⟨ip, hip, hsource⟩ := clientSource_ok h hok
    obtain ⟨left, right, hparsed, hdecides⟩ := forwardedSource_decides hip
    exact ⟨left, ip, right, hparsed, hdecides, hsource⟩
  agree r r' source source' left left' ip right h h' hok hok' hparsed hparsed' hd hd' := by
    obtain ⟨a, ha, rfl⟩ := clientSource_ok h hok
    obtain ⟨a', ha', rfl⟩ := clientSource_ok h' hok'
    rw [hd.forwardedSource hparsed ha, hd'.forwardedSource hparsed' ha']

theorem parseAddress_is4In6 {value : Bytes} {ip : Addr} (h : parseAddress value = some ip) :
    ip.is4In6 = false := by
  obtain ⟨a, -, rfl⟩ := Option.map_eq_some_iff.mp h
  unfold unmap
  split_ifs with hmapped
  · rfl
  · exact Bool.eq_false_iff.mpr hmapped

theorem parts_is4In6 {u : Unicode} {parts : List Bytes} {hops : List Addr}
    (h : parts.mapM (fun part => parseAddress (trimSpace u part)) = some hops) :
    ∀ ip ∈ hops, ip.is4In6 = false := by
  induction parts generalizing hops with
  | nil =>
    cases h
    exact forall_mem_nil _
  | cons part rest ih =>
    rw [mapM_cons] at h
    obtain ⟨a, ha, h⟩ := Option.bind_eq_some_iff.mp h
    obtain ⟨others, hothers, h⟩ := Option.bind_eq_some_iff.mp h
    cases h
    exact forall_mem_cons.mpr ⟨parseAddress_is4In6 ha, ih hothers⟩

theorem canonical_text {ip : Addr} (h : ip.is4In6 = false) :
    canonical (String.ofList ip.text) = true := by
  have hunmap : unmap ip = ip := if_neg (Bool.eq_false_iff.mp h)
  simp [canonical, HttpAdmission.parseAddress, parseAddr_text h, hunmap]

theorem clientSource_all (u : Unicode) (r : Request) (policy : SourcePolicy) :
    (clientSource u r policy).toOption.all (fun source => canonical (String.ofList source)) := by
  have hsource : ∀ ip, (if policy = .invalid then none else r.remote.bind fun remote =>
      if policy = .direct ∨ knownProxy remote = false ∨ r.forwarded = [] then some remote
      else forwardedSource u r.forwarded) = some ip → ip.is4In6 = false := by
    intro ip h
    split at h
    · cases h
    obtain ⟨remote, hremote, h⟩ := Option.bind_eq_some_iff.mp h
    split at h
    · cases h
      exact parseAddress_is4In6 hremote
    · obtain ⟨left, right, hparsed, -⟩ := forwardedSource_decides h
      exact parts_is4In6 hparsed ip (mem_append_right _ mem_cons_self)
  unfold clientSource
  generalize (if policy = .invalid then none else _) = source at hsource ⊢
  cases source with
  | none => rfl
  | some ip => exact canonical_text (hsource ip rfl)

section

open HttpAdmission

variable (a : Admission) (ctx : Context) (source : String) (now : ℤ)

/-- The form of the source is not looked at again. -/
theorem reserve_ne_badRequest (id : ℕ) : (a.reserve ctx source id now).2 ≠ .denied badRequest := by
  unfold Admission.reserve
  split
  · simp [badRequest, admissionCancelled]
  · simp

theorem acquireKnown_ne_badRequest (id : ℕ) :
    (a.acquireKnown ctx source id now).2 ≠ .denied badRequest := by
  unfold Admission.acquireKnown
  dsimp only
  split_ifs
  · simp [badRequest, AdmissionConfig.exhausted]
  · simp [badRequest, rateLimited]
  · exact reserve_ne_badRequest _ ctx source now id

theorem acquireNew_ne_badRequest : (a.acquireNew ctx source now).2 ≠ .denied badRequest := by
  unfold Admission.acquireNew
  dsimp only
  split_ifs
  · simp [badRequest, rateLimited]
  · simp [badRequest, AdmissionConfig.exhausted]
  · exact reserve_ne_badRequest _ ctx source now _
  · exact reserve_ne_badRequest _ ctx source now _

/-- Only a source in another form is a bad request. -/
theorem acquire_ne_badRequest (h : canonical source = true) :
    (a.acquire ctx source now).2 ≠ .denied badRequest := by
  unfold Admission.acquire
  rw [h, if_neg (Bool.noConfusion : ¬ true = false)]
  dsimp only
  split_ifs
  · simp [badRequest, admissionCancelled]
  · simp [badRequest, admissionCancelled]
  · simp [badRequest, AdmissionConfig.exhausted]
  · cases (a.refillGlobal now).sources.lookup source with
    | some id => exact acquireKnown_ne_badRequest _ ctx source now id
    | none => exact acquireNew_ne_badRequest _ ctx source now

end

/-- Every source that is found has the form that `acquire` requires, so `acquire` never answers that
the request is bad. -/
theorem clientSource_canonical (u : Unicode) (r : Request) (policy : SourcePolicy) :
    (clientSource u r policy).toOption.all (fun source => canonical (String.ofList source)) = true ∧
      ∀ (a : Admission) (ctx : Context) (now : ℤ), (clientSource u r policy).toOption.all
        (fun source => (a.acquire ctx (String.ofList source) now).2 ≠ .denied badRequest) =
          true := by
  have hall := clientSource_all u r policy
  refine ⟨hall, fun a ctx now => ?_⟩
  cases hsource : (clientSource u r policy).toOption with
  | none => rfl
  | some =>
    rw [hsource] at hall
    exact decide_eq_true (acquire_ne_badRequest a ctx _ now hall)

/-- A request from the proxy on the loopback address. -/
def viaProxy (line : String) : Request :=
  ⟨ascii "127.0.0.1:9", fun name => if name = "X-Forwarded-For" then [ascii line] else []⟩

def loopback : Addr := ⟨.v4, 127 * 2 ^ 24 + 1, by decide⟩

/-- A client on the loopback address counts as a known proxy. If all hops are known proxies, the
first one decides, but a hop further left takes its place. -/
theorem loopbackClient_chooses :
    clientSource plainText (viaProxy "127.0.0.1") .loopbackProxy = .ok "127.0.0.1".toList ∧
      clientSource plainText (viaProxy "6.6.6.6, 127.0.0.1") .loopbackProxy = .ok "6.6.6.6".toList ∧
      parseHops plainText (viaProxy "127.0.0.1").forwarded = some [loopback] ∧
      parseHops plainText (viaProxy "6.6.6.6, 127.0.0.1").forwarded =
        some [⟨.v4, 6 * (2 ^ 24 + 2 ^ 16 + 2 ^ 8 + 1), by decide⟩, loopback] ∧
        Decides [] loopback [] :=
  ⟨by decide +kernel, by decide +kernel, by decide +kernel, by decide +kernel, by simp, .inr rfl⟩

end DaxiangVpn.HttpSource
