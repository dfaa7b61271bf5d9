import Upkeep.Admin.Router
import Upkeep.Proofs.Text.Octets
import Upkeep.Proofs.Timeline

/-!
Requests without the token. A request passes with the very octets of the token in its first
authorization header, and with nothing else; one that does not is refused before any handler is asked,
with a response that depends on the request alone.
-/

namespace Upkeep.Admin

namespace Bearer

private theorem foldl_eq_zero_iff {a b : Bytes} (h : a.length = b.length) (acc : UInt8) :
    (a.zip b).foldl (fun acc p => acc ||| (p.1 ^^^ p.2)) acc = 0 ↔ acc = 0 ∧ a = b := by
  induction a generalizing b acc with
  | nil =>
      cases b with
      | nil => simp
      | cons y b => cases h
  | cons x a ih =>
      cases b with
      | nil => cases h
      | cons y b =>
          rw [List.zip_cons_cons, List.foldl_cons, ih (Nat.succ.inj h), UInt8.or_eq_zero_iff,
            UInt8.xor_eq_zero_iff, List.cons.injEq, and_assoc]

/-- No difference is found in octet strings of one length just when they are the same. -/
theorem sameOctets_iff {a b : Bytes} : sameOctets a b = true ↔ a = b := by
  rw [sameOctets, Bool.and_eq_true, beq_iff_eq, beq_iff_eq]
  constructor
  · intro ⟨hlength, hdifference⟩
    exact ((foldl_eq_zero_iff hlength 0).mp hdifference).2
  · intro h
    have hlength : a.length = b.length := congrArg List.length h
    exact ⟨hlength, (foldl_eq_zero_iff hlength 0).mpr ⟨rfl, h⟩⟩

theorem sameOctets_encode {s t : String} :
    sameOctets (Utf8.encode s) (Utf8.encode t) = true ↔ s = t := by
  rw [sameOctets_iff, Utf8.encode_inj]

/-- The first authorization header has a value of printable octets and tabs, which is the scheme
followed by the token. -/
def Carries (token : String) (headers : List Header) : Prop :=
  ∃ before h after, headers = before ++ h :: after ∧
    (∀ h' ∈ before, h'.isNamed "authorization" = false) ∧ h.isNamed "authorization" = true ∧
    (∀ b ∈ h.value, 0x20 ≤ b ∧ b ≤ 0x7e ∨ b = 0x09) ∧
    h.value = Utf8.encode "Bearer " ++ Utf8.encode token

theorem isReadable_iff {value : Bytes} :
    isReadable value = true ↔ ∀ b ∈ value, 0x20 ≤ b ∧ b ≤ 0x7e ∨ b = 0x09 := by
  simp [isReadable, Ascii.tab]

/-- What follows the scheme is compared with the token. -/
theorem scheme_iff {value token : Bytes} :
    scheme.isPrefixOf value = true ∧ sameOctets (value.drop scheme.length) token = true ↔
      value = scheme ++ token := by
  rw [List.isPrefixOf_iff_prefix, sameOctets_iff]
  constructor
  · intro ⟨hstarts, hrest⟩
    rw [← hrest]
    exact (List.prefix_iff_eq_append.mp hstarts).symm
  · intro h
    rw [h, List.drop_left]
    exact ⟨List.prefix_append _ _, rfl⟩

private theorem permits_of_find? {token : String} {headers : List Header} {h : Header}
    (hfind : headers.find? (fun h => h.isNamed "authorization") = some h) :
    permits (some token) headers = true ↔ (∀ b ∈ h.value, 0x20 ≤ b ∧ b ≤ 0x7e ∨ b = 0x09) ∧
      h.value = Utf8.encode "Bearer " ++ Utf8.encode token := by
  simp only [permits, hfind, Bool.and_eq_true, and_assoc, scheme_iff, isReadable_iff]
  rfl

theorem permits_iff {token : String} {headers : List Header} :
    permits (some token) headers = true ↔ Carries token headers := by
  constructor
  · intro hpermits
    cases hfind : headers.find? fun h => h.isNamed "authorization" with
    | none =>
        rw [permits, hfind] at hpermits
        cases hpermits
    | some h =>
        obtain ⟨hnamed, before, after, hsplit, hbefore⟩ := List.find?_eq_some_iff_append.mp hfind
        refine ⟨before, h, after, hsplit, ?_, hnamed, (permits_of_find? hfind).mp hpermits⟩
        intro h' hh'
        exact Bool.eq_false_iff.mpr (by simpa using hbefore h' hh')
  · intro ⟨before, h, after, hsplit, hbefore, hnamed, hvalue⟩
    have hfind : headers.find? (fun h => h.isNamed "authorization") = some h := by
      refine List.find?_eq_some_iff_append.mpr ⟨hnamed, before, after, hsplit, ?_⟩
      intro h' hh'
      rw [hbefore h' hh']
      rfl
    exact (permits_of_find? hfind).mpr hvalue

end Bearer

namespace Site

def serveBy (handle : Route → Work Response) (method : String) : Option Route → Work Response
  | none => .done (.empty 404)
  | some r =>
    if r.fits method then
      (handle r).bind fun response => .done (if method = "HEAD" then response.bare else response)
    else .done (.empty 405)

def respondBy (handle : Route → Work Response) (authToken : Option String) (req : Request) :
    Work Response :=
  let route := Route.ofPath (pathOf req.target)
  let finish (r : Response) : Response := anyOrigin (withAllowed route req.method r)
  if req.method = "OPTIONS" then .done (finish options)
  else if pathOf req.target == Route.healthPath || Bearer.permits authToken req.headers then
    (serveBy handle req.method route).bind fun r => .done (finish r)
  else .done (finish (.ofCode .unauthorized "unauthorized"))

variable {ε : Type} (s : Site ε)

theorem serve_eq_serveBy (method : String) (route : Option Route) :
    s.serve method route = serveBy s.handleRoute method route := by
  cases route with
  | none => rfl
  | some r => rfl

theorem respond_eq_respondBy (req : Request) :
    s.respond req = respondBy s.handleRoute s.authToken req := by
  rw [respond, respondBy, serve_eq_serveBy]
  rfl

def respondAll : List Request → Work (List Response)
  | [] => .done []
  | req :: reqs => (s.respond req).bind fun r => (respondAll reqs).bind fun rs => .done (r :: rs)

/-- The response to a request that does not pass; to one for options it is what everybody gets. -/
def refusal (req : Request) : Response :=
  anyOrigin (withAllowed (Route.ofPath (pathOf req.target)) req.method
    (if req.method = "OPTIONS" then options else .ofCode .unauthorized "unauthorized"))

theorem status_withAllowed (route : Option Route) (method : String) (r : Response) :
    (withAllowed route method r).status = r.status := by
  cases route with
  | none => rfl
  | some route =>
      rw [withAllowed]
      split
      next => rfl
      next => rfl

theorem status_refusal {req : Request} (h : req.method ≠ "OPTIONS") : (refusal req).status = 401 := by
  have hstatus : (refusal req).status = (withAllowed (Route.ofPath (pathOf req.target)) req.method
      (if req.method = "OPTIONS" then options else .ofCode .unauthorized "unauthorized")).status := rfl
  rw [hstatus, status_withAllowed, if_neg h]
  rfl

variable {s} {token : String} {req : Request}

def Barred (token : String) (req : Request) : Prop :=
  pathOf req.target ≠ Route.healthPath ∧ Bearer.permits (some token) req.headers = false

theorem Barred.respondBy_eq (h : Barred token req) (handle : Route → Work Response) :
    respondBy handle (some token) req = .done (refusal req) := by
  have hpass : (pathOf req.target == Route.healthPath ||
      Bearer.permits (some token) req.headers) = false := by
    rw [h.2, Bool.or_false]
    exact beq_false_of_ne h.1
  rw [respondBy, refusal, hpass]
  by_cases hoptions : req.method = "OPTIONS"
  · rw [if_pos hoptions, if_pos hoptions]
  · rw [if_neg hoptions, if_neg hoptions]
    rfl

theorem respondAll_of_barred {reqs : List Request} (h : ∀ req ∈ reqs, Barred token req)
    (htoken : s.authToken = some token) : s.respondAll reqs = .done (reqs.map refusal) := by
  induction reqs with
  | nil => rfl
  | cons req reqs ih =>
      obtain ⟨hreq, hreqs⟩ := List.forall_mem_cons.mp h
      rw [respondAll, respond_eq_respondBy, htoken, hreq.respondBy_eq, ih hreqs]
      rfl

/-- Only the token lets a request pass. Requests that are barred reach no handler, leave the store and
whatever is tracked as they are, and get responses that tell nothing about either. -/
theorem barred_unseen (token : String) :
    (∀ headers, Bearer.permits (some token) headers = true ↔ Bearer.Carries token headers) ∧
      (∀ a b : String, Bearer.sameOctets (Utf8.encode a) (Utf8.encode b) = true ↔ a = b) ∧
      (∀ {ε : Type} (s : Site ε) req, s.respond req = respondBy s.handleRoute s.authToken req) ∧
      ∀ reqs : List Request, (∀ req ∈ reqs, Barred token req) →
        (∀ req ∈ reqs, ∀ handle, respondBy handle (some token) req = .done (refusal req)) ∧
        (∀ req ∈ reqs, req.method ≠ "OPTIONS" → (refusal req).status = 401) ∧
        ∀ {ε σ : Type} (s : Site ε) (o : Outside σ) (t : Timeline σ), s.authToken = some token →
          t.run o (s.respondAll reqs) = (some (reqs.map refusal), t) := by
  refine ⟨fun _ => Bearer.permits_iff, fun _ _ => Bearer.sameOctets_encode, respond_eq_respondBy, ?_⟩
  intro reqs hbarred
  refine ⟨?_, ?_, ?_⟩
  · intro req hreq handle
    exact (hbarred req hreq).respondBy_eq handle
  · intro req _ hmethod
    exact status_refusal hmethod
  · intro ε σ s o t htoken
    rw [respondAll_of_barred hbarred htoken]
    exact Timeline.run_done _

/-- The token is in a header that is not the first, or in none. -/
theorem barred_unseen_misplaced :
    let reqs : List Request :=
      [⟨"GET", "/api/v1/refresh?all", [⟨"Authorization", Utf8.encode "Bearer s3cret!"⟩,
        ⟨"authorization", Utf8.encode "Bearer s3cret"⟩]⟩,
        ⟨"POST", "/api/v1/refresh/did:a:b", []⟩]
    (∀ req ∈ reqs, Barred "s3cret" req) ∧
      ∀ {ε σ : Type} (s : Site ε) (o : Outside σ) (t : Timeline σ), s.authToken = some "s3cret" →
        t.run o (s.respondAll reqs) = (some (reqs.map refusal), t) := by
  intro reqs
  have hbarred : ∀ req ∈ reqs, Barred "s3cret" req := by
    simp only [reqs, List.forall_mem_cons, Barred]
    decide +kernel
  exact ⟨hbarred, ((barred_unseen "s3cret").2.2.2 reqs hbarred).2.2⟩

end Site

end Upkeep.Admin
