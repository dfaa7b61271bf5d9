import Mathlib.Data.List.TakeWhile
import Upkeep.Proofs.Did.Grammar
import Upkeep.Proofs.Registration
import Upkeep.Proofs.Text.Percent

/-!
Registering over the admin interface. The last segment of the path is read with its percent escapes,
and percent signs may stand in identifiers: what is registered is the identifier that the segment
spells, which is the one that stands there only if nothing in it looks like an escape.
-/

namespace Upkeep

open Store Timeline

namespace Admin

structure IsSegment (segment : String) : Prop where
  nonempty : segment ≠ ""
  plain : ∀ c ∈ segment.toList, c ≠ '/' ∧ c ≠ '?' ∧ c ≠ '#'

theorem IsSegment.escape {segment : String} (h : IsSegment segment) :
    IsSegment (Percent.escape segment) := by
  have hmem : ∀ c ∈ segment.toList, ∀ c' ∈ Percent.escapeChar c, c' ∈ (Percent.escape segment).toList := by
    intro c hc c' hc'
    rw [Percent.escape, String.toList_ofList]
    exact List.mem_flatMap.mpr ⟨c, hc, hc'⟩
  constructor
  · intro hempty
    obtain ⟨c, hc⟩ := List.exists_mem_of_ne_nil _ fun hnil => h.nonempty (String.toList_inj.mp hnil)
    obtain ⟨c', hc'⟩ : ∃ c', c' ∈ Percent.escapeChar c := by
      unfold Percent.escapeChar
      split <;> exact ⟨_, List.mem_cons_self⟩
    have hin := hmem c hc c' hc'
    rw [hempty] at hin
    cases hin
  · rw [Percent.escape, String.toList_ofList]
    intro c' hc'
    obtain ⟨c, hc, hin⟩ := List.mem_flatMap.mp hc'
    unfold Percent.escapeChar at hin
    split at hin
    next =>
      simp only [List.mem_cons, List.not_mem_nil, or_false] at hin
      rcases hin with rfl | rfl | rfl <;> decide
    next =>
      rw [List.mem_singleton.mp hin]
      exact h.plain c hc

theorem isSegment_text (d : Did) : IsSegment d.text := by
  constructor
  · intro hempty
    obtain ⟨method, id, h⟩ := d.exists_spelled
    have htext := h.toList_eq
    rw [hempty] at htext
    cases htext
  · intro c hc
    have hid := d.isIdChar_of_mem c hc
    refine ⟨?_, ?_, ?_⟩ <;> rintro rfl <;> exact absurd hid (by decide)

namespace Route

def registerPath (segment : String) : String := refreshPath ++ "/" ++ segment

variable {segment : String}

theorem toList_registerPath (segment : String) :
    (registerPath segment).toList = (refreshPath.toList ++ ['/']) ++ segment.toList := by
  rw [registerPath, String.toList_append, String.toList_append]
  rfl

theorem pathOf_registerPath (h : IsSegment segment) :
    pathOf (registerPath segment) = registerPath segment := by
  have hplain : ∀ c ∈ (registerPath segment).toList, (c != '?' && c != '#') = true := by
    rw [toList_registerPath]
    intro c hc
    rcases List.mem_append.mp hc with hc | hc
    · exact List.all_eq_true.mp (by decide : (refreshPath.toList ++ ['/']).all
        (fun c => c != '?' && c != '#') = true) c hc
    · simpa using (h.plain c hc).2
  rw [pathOf, List.takeWhile_eq_self_iff.mpr hplain, String.ofList_toList]

theorem ofPath_registerPath (h : IsSegment segment) :
    ofPath (registerPath segment) = some (.register segment) := by
  have hstarts : (refreshPath.toList ++ ['/']).isPrefixOf (registerPath segment).toList = true := by
    rw [toList_registerPath]
    exact List.isPrefixOf_iff_prefix.mpr (List.prefix_append _ _)
  have hother {path : String} (hpath : (refreshPath.toList ++ ['/']).isPrefixOf path.toList = false) :
      registerPath segment ≠ path := by
    rintro rfl
    exact Bool.false_ne_true (hpath.symm.trans hstarts)
  have hbelow : segmentBelow refreshPath (registerPath segment) = some segment := by
    have hrest : (registerPath segment).toList.drop (refreshPath.toList ++ ['/']).length =
        segment.toList := by
      rw [toList_registerPath]
      exact List.drop_left
    have hsome : segment.toList.isEmpty = false := by
      rw [List.isEmpty_eq_false_iff]
      exact fun hnil => h.nonempty (String.toList_inj.mp hnil)
    have hslash : segment.toList.contains '/' = false := by
      rw [Bool.eq_false_iff, ne_eq, List.contains_iff_mem]
      exact fun hmem => (h.plain _ hmem).1 rfl
    rw [segmentBelow, hstarts, hrest, hsome, hslash, String.ofList_toList]
    rfl
  rw [ofPath, if_neg (hother (by decide)), if_neg (hother (by decide)), if_neg (hother (by decide)),
    hbelow]
  rfl

end Route

namespace Site

variable {σ ε : Type} {o : Outside σ} {held : σ → Memory} {s : Site ε} {t : Timeline σ} {d : Did}
  {segment : String} {headers : List Header}

def registering (segment : String) (headers : List Header) : Request :=
  ⟨"POST", Route.registerPath segment, headers⟩

theorem respond_registering (h : IsSegment segment)
    (hpass : Bearer.permits s.authToken headers = true) :
    s.respond (registering segment headers) =
      (s.register segment).bind fun r => .done (anyOrigin r) := by
  have hroute : Route.ofPath (pathOf (registering segment headers).target) =
      some (.register segment) := by
    rw [registering, Route.pathOf_registerPath h, Route.ofPath_registerPath h]
  have hmay : s.mayPass (registering segment headers) = true := by
    rw [mayPass, Bool.or_eq_true]
    exact .inr hpass
  have hserve : s.serve "POST" (some (.register segment)) =
      (s.register segment).bind fun r => .done r := rfl
  have hmethod : (registering segment headers).method = "POST" := rfl
  rw [respond, hroute, hmethod]
  dsimp only
  rw [if_neg (by decide), if_pos hmay, hserve, Program.bind_pure]
  rfl

/-- A segment spells an identifier when its escapes stand for the octets of that identifier. -/
theorem did?_eq_some_iff :
    did? segment = some d ↔ Percent.decode (Utf8.encode segment) = Utf8.encode d.text := by
  rw [did?, Option.bind_eq_some_iff]
  constructor
  · rintro ⟨text, htext, hd⟩
    rw [← Did.toOption_parse.mp hd, Utf8.encode_of_decode htext]
  · intro h
    exact ⟨d.text, by rw [h, Utf8.decode_encode], Did.toOption_parse.mpr rfl⟩

/-- What registering an identifier does, which was there or not: it is marked and tracked, and nothing
else is. -/
structure Adds (s : Site ε) (held : σ → Memory) (d : Did) (registered : Bool) (t t' : Timeline σ) :
    Prop where
  isNew : registered = true ↔ s.caretaker.markers.key d ∉ (held t.outside).keys
  markers : held t'.outside =
    if registered then
      (held t.outside).insert (s.caretaker.markers.key d) (Utf8.encode d.text)
    else held t.outside
  tracked : ∀ d', d' ∈ (t'.registry s.handle.registry).enrolled ↔
    d' ∈ (t.registry s.handle.registry).enrolled ∨ d' = d

section Faultless

variable (hanswers : ∀ c u, ∃ a, (o.store c u).1 = some (.ok a))

include hanswers

theorem answered_register (m : Markers) (d : Did) :
    ∃ registered, (t.run o (m.register d)).1 = some (.ok registered) := by
  obtain ⟨value, hget⟩ := hanswers (.get (m.key d)) t.outside
  cases value with
  | some bs =>
      have hrun : t.run o (m.register d) = _ :=
        (run_call_ok (c := .get (m.key d)) _ hget).trans (run_done _)
      exact ⟨false, congrArg Prod.fst hrun⟩
  | none =>
      let u := t.withOutside (o.store (.get (m.key d)) t.outside).2
      have hrun : t.run o (m.register d) = u.run o ((Work.put (m.key d) (Utf8.encode d.text)).onSuccess
          fun () => Work.ok true) := run_call_ok (c := .get (m.key d)) _ hget
      obtain ⟨⟨⟩, hput⟩ := hanswers (.put (m.key d) (Utf8.encode d.text)) u.outside
      have hwritten : u.run o ((Work.put (m.key d) (Utf8.encode d.text)).onSuccess
          fun () => Work.ok true) = _ := (run_call_ok (c := .put ..) _ hput).trans (run_done _)
      exact ⟨true, congrArg Prod.fst (hrun.trans hwritten)⟩

variable (ho : o.Stores held) (hroom : s.handle.registry < t.registries.length)
  (hopen : (t.registry s.handle.registry).isShut = false)

include ho hroom hopen

theorem run_registerDid_adds (d : Did) : ∃ registered t',
    t.run o (s.registerDid d) = (some (.registration d registered true), t') ∧
      s.Adds held d registered t t' := by
  obtain ⟨x, u, hmark, hregisters⟩ := Markers.run_register (m := s.caretaker.markers) (d := d)
    (t := t) ho
  obtain ⟨registered, hanswered⟩ := answered_register (t := t) hanswers s.caretaker.markers d
  rw [hmark] at hanswered
  obtain rfl : x = some (.ok registered) := hanswered
  have hmem (d' : Did) := Handle.mem_enrolled_track (o := o) (h := s.handle) (t := t.withOutside u)
    hroom d d' .zero
  have houtside := Handle.outside_track (o := o) (h := s.handle) (t := t.withOutside u) d .zero
  refine ⟨registered, ((t.withOutside u).run o (s.handle.track d .zero)).2, ?_,
    hregisters.marked.2, ?_, fun d' => ?_⟩
  · rw [run_registerDid, hmark]
    dsimp only
    rw [List.contains_iff_mem.mpr ((hmem d).mpr (.inr ⟨rfl, hopen⟩))]
  · rw [houtside]
    change held u = _
    generalize held u = rows at hregisters
    cases hregisters <;> rfl
  · rw [hmem d']
    exact or_congr_right (and_iff_left hopen)

theorem run_respond_adds (hsegment : IsSegment segment)
    (hpass : Bearer.permits s.authToken headers = true) (hd : did? segment = some d) :
    ∃ registered t', t.run o (s.respond (registering segment headers)) =
        (some (anyOrigin (.registration d registered true)), t') ∧ s.Adds held d registered t t' := by
  obtain ⟨registered, t', hrun, hadds⟩ := run_registerDid_adds hanswers ho hroom hopen d
  refine ⟨registered, t', ?_, hadds⟩
  rw [respond_registering hsegment hpass, run_bind_eq, register_of_some hd, hrun]
  exact run_done _

end Faultless

theorem anyOrigin_inj {r r' : Response} (h : anyOrigin r = anyOrigin r') : r = r' := by
  obtain ⟨status, headers, body⟩ := r
  obtain ⟨status', headers', body'⟩ := r'
  simp only [anyOrigin, Response.addHeader, Response.mk.injEq, List.append_cancel_right_eq] at h
  obtain ⟨rfl, rfl, rfl⟩ := h
  rfl

/-- A segment that spells another identifier, or none, is not answered with this one. -/
theorem fst_run_respond_ne (ho : o.Stores held) (hroom : s.handle.registry < t.registries.length)
    (hsegment : IsSegment segment) (hpass : Bearer.permits s.authToken headers = true)
    (hd : did? segment ≠ some d) (registered tracked : Bool) :
    (t.run o (s.respond (registering segment headers))).1 ≠
      some (anyOrigin (.registration d registered tracked)) := by
  intro h
  rw [respond_registering hsegment hpass, run_bind_eq] at h
  rcases hrun : t.run o (s.register segment) with ⟨_ | r, t'⟩
  · rw [hrun] at h
    cases h
  · rw [hrun] at h
    dsimp only at h
    rw [run_done] at h
    obtain rfl := anyOrigin_inj (Option.some.inj h)
    obtain ⟨d', _, _, hd', hsame, -⟩ := (registered_run ho hroom hrun).served _ rfl rfl
    obtain ⟨rfl, -⟩ := Response.registration_inj hsame
    exact hd hd'

/-- A request to register whose last segment spells an identifier is answered with that identifier,
and exactly that one is added to those that are marked and tracked: with the handle not shut, and with
a store that answers. The segment may be the identifier with its percent signs escaped. It may be the
identifier as it stands exactly when nothing in it looks like an escape; otherwise the answer is about
another identifier, or there is none. -/
theorem respond_registers (ho : o.Stores held) (hanswers : ∀ c u, ∃ a, (o.store c u).1 = some (.ok a))
    (hroom : s.handle.registry < t.registries.length)
    (hopen : (t.registry s.handle.registry).isShut = false)
    (hpass : Bearer.permits s.authToken headers = true) (d : Did) :
    (∀ segment, IsSegment segment → Percent.decode (Utf8.encode segment) = Utf8.encode d.text →
      ∃ registered t', t.run o (s.respond (registering segment headers)) =
          (some (anyOrigin (.registration d registered true)), t') ∧
        s.Adds held d registered t t') ∧
    (IsSegment (Percent.escape d.text) ∧
      Percent.decode (Utf8.encode (Percent.escape d.text)) = Utf8.encode d.text) ∧
    (IsSegment d.text ∧ (Percent.decode (Utf8.encode d.text) = Utf8.encode d.text ↔
      ¬ Percent.HasEscape (Utf8.encode d.text))) ∧
    (Percent.HasEscape (Utf8.encode d.text) → ∀ registered tracked,
      (t.run o (s.respond (registering d.text headers))).1 ≠
        some (anyOrigin (.registration d registered tracked))) := by
  refine ⟨fun segment hsegment hspells => ?_, ?_, ?_, fun hescape registered tracked => ?_⟩
  · exact run_respond_adds hanswers ho hroom hopen hsegment hpass (did?_eq_some_iff.mpr hspells)
  · exact ⟨(isSegment_text d).escape, Percent.decode_escape d.text⟩
  · exact ⟨isSegment_text d, Percent.decode_eq_self_iff⟩
  · have hother : did? d.text ≠ some d := fun h =>
      Percent.decode_eq_self_iff.mp (did?_eq_some_iff.mp h) hescape
    exact fst_run_respond_ne ho hroom (isSegment_text d) hpass hother registered tracked

namespace Lone

theorem outside_answers (c : Call) (u : Desk) : ∃ a, (outside.store c u).1 = some (.ok a) := by
  cases c <;> exact ⟨_, rfl⟩

/-- An identifier is registered with its percent sign escaped. -/
theorem registers_escaped :
    let d : Did := ⟨"did:web:localhost%3A8080", by decide⟩
    ∃ registered t', started.run outside
        (lone.respond (registering "did:web:localhost%253A8080" [])) =
          (some (anyOrigin (.registration d registered true)), t') ∧
      lone.Adds Desk.rows d registered started t' := by
  intro d
  have hpass : Bearer.permits lone.authToken [] = true := rfl
  have hregisters := respond_registers (t := started) (Outside.granting_stores _ _) outside_answers
    (by decide +kernel) (by decide +kernel) hpass d
  have hescaped : Percent.escape d.text = "did:web:localhost%253A8080" := by decide +kernel
  rw [← hescaped]
  exact hregisters.1 _ hregisters.2.1.1 hregisters.2.1.2

/-- Registered as it stands, it is another one that is registered. -/
theorem registers_other :
    ¬ ∀ d : Did, ∃ registered t', started.run outside (lone.respond (registering d.text [])) =
      (some (anyOrigin (.registration d registered true)), t') := by
  intro hall
  let d : Did := ⟨"did:web:localhost%3A8080", by decide⟩
  have hother : did? d.text ≠ some d := by decide +kernel
  obtain ⟨registered, t', hrun⟩ := hall d
  exact fst_run_respond_ne (Outside.granting_stores _ _) (by decide +kernel) (isSegment_text d)
    rfl hother registered true (congrArg Prod.fst hrun)

end Lone

end Site

end Admin

end Upkeep
