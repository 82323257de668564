import NearField.Emulator.Controller

/-! # Endpoints of a controller

Looking endpoints and tags up, and changing one of them while the others stay.
-/
namespace NearField.Emulator.Controller
variable {c : Controller} {place other : Nat}

theorem endpointAt_eq_ok_iff {endpoint : Endpoint} :
    c.endpointAt place = .ok endpoint ↔ c.endpoints[place]? = some endpoint := by
  unfold endpointAt
  cases c.endpoints[place]? <;> simp

theorem active_eq_ok_iff {endpoint : Endpoint} :
    c.active = .ok (place, endpoint) ↔
      c.activeEndpoint = some place ∧ c.endpoints[place]? = some endpoint := by
  unfold active
  cases c.activeEndpoint with
  | none => simp
  | some active =>
    constructor
    · intro h
      cases hendpoint : c.endpoints[active]? with
      | none => simp [hendpoint] at h
      | some found =>
        simp only [hendpoint, Except.ok.injEq, Prod.mk.injEq] at h
        obtain ⟨rfl, rfl⟩ := h
        exact ⟨rfl, hendpoint⟩
    · rintro ⟨hactive, hendpoint⟩
      cases hactive
      simp [hendpoint]

theorem tagAt_eq_ok_iff {tag : Tag} :
    c.tagAt place = .ok tag ↔ ∃ e, c.endpoints[place]? = some e ∧ e.tag = some tag := by
  unfold tagAt
  cases c.endpoints[place]? with
  | none => simp
  | some endpoint => cases htag : endpoint.tag <;> simp [htag]

theorem tagAt_error {e : Error} (h : c.tagAt place = .error e) : e = .notATag := by
  unfold tagAt at h
  split at h
  · cases h
  · exact (Except.error.inj h).symm

theorem getElem?_modifyEndpoint (c : Controller) (place : Nat) (f : Endpoint → Endpoint)
    (other : Nat) : (c.modifyEndpoint place f).endpoints[other]? =
      if place = other then c.endpoints[other]?.map f else c.endpoints[other]? := by
  rw [modifyEndpoint, List.getElem?_modify]
  by_cases hp : place = other <;> simp [hp]

theorem modifyEndpoint_congr {f g : Endpoint → Endpoint}
    (h : ∀ e, c.endpoints[place]? = some e → f e = g e) :
    c.modifyEndpoint place f = c.modifyEndpoint place g := by
  have hlist : (c.modifyEndpoint place f).endpoints = (c.modifyEndpoint place g).endpoints := by
    apply List.ext_getElem?
    intro i
    rw [getElem?_modifyEndpoint, getElem?_modifyEndpoint]
    by_cases hi : place = i
    · subst hi
      cases hendpoint : c.endpoints[place]? with
      | none => rfl
      | some e => simp [h e hendpoint]
    · rw [if_neg hi, if_neg hi]
  exact congrArg (fun endpoints => { c with endpoints := endpoints }) hlist

theorem modifyEndpoint_self {f : Endpoint → Endpoint}
    (h : ∀ e, c.endpoints[place]? = some e → f e = e) : c.modifyEndpoint place f = c := by
  rw [modifyEndpoint_congr (g := id) h]
  simp [modifyEndpoint]

theorem forall_modifyEndpoint {p : Endpoint → Prop} {f : Endpoint → Endpoint}
    (h : ∀ e ∈ c.endpoints, p e) (hf : ∀ e, p e → p (f e)) :
    ∀ e ∈ (c.modifyEndpoint place f).endpoints, p e := by
  intro e he
  obtain ⟨i, hi⟩ := List.mem_iff_getElem?.mp he
  rw [getElem?_modifyEndpoint] at hi
  by_cases hplace : place = i
  · rw [if_pos hplace] at hi
    obtain ⟨old, hold, rfl⟩ := Option.map_eq_some_iff.mp hi
    exact hf old (h old (List.mem_of_getElem? hold))
  · rw [if_neg hplace] at hi
    exact h e (List.mem_of_getElem? hi)

theorem map_modifyEndpoint {β : Type} (c : Controller) (place : Nat) {f : Endpoint → Endpoint}
    {g : Endpoint → β} (hf : ∀ e, g (f e) = g e) :
    (c.modifyEndpoint place f).endpoints.map g = c.endpoints.map g := by
  apply List.ext_getElem?
  intro i
  rw [List.getElem?_map, List.getElem?_map, getElem?_modifyEndpoint]
  cases c.endpoints[i]? with
  | none => simp
  | some e => by_cases hi : place = i <;> simp [hi, hf e]

theorem modifyEndpoint_comm {f g : Endpoint → Endpoint}
    (h : place = other → ∀ e, f (g e) = g (f e)) :
    (c.modifyEndpoint place f).modifyEndpoint other g =
      (c.modifyEndpoint other g).modifyEndpoint place f := by
  have hlist : ((c.modifyEndpoint place f).modifyEndpoint other g).endpoints =
      ((c.modifyEndpoint other g).modifyEndpoint place f).endpoints := by
    apply List.ext_getElem?
    intro i
    simp only [getElem?_modifyEndpoint]
    by_cases hplace : place = i
    · by_cases hother : other = i
      · simp [hplace, hother, Function.comp_def, h (hplace.trans hother.symm)]
      · simp [hplace, hother]
    · simp [hplace]
  exact congrArg (fun endpoints => { c with endpoints := endpoints }) hlist

def modifyTag (c : Controller) (place : Nat) (f : Tag → Tag) : Controller :=
  c.modifyEndpoint place fun e => { e with tag := e.tag.map f }

theorem setTag_eq_modifyTag {tag : Tag} (h : c.tagAt place = .ok tag) (f : Tag → Tag) :
    c.setTag place (f tag) = c.modifyTag place f := by
  obtain ⟨endpoint, hendpoint, htag⟩ := tagAt_eq_ok_iff.mp h
  refine modifyEndpoint_congr fun e he => ?_
  rw [hendpoint] at he
  cases he
  rw [htag, Option.map_some]

theorem setTag_self {tag : Tag} (h : c.tagAt place = .ok tag) : c.setTag place tag = c := by
  obtain ⟨endpoint, hendpoint, htag⟩ := tagAt_eq_ok_iff.mp h
  refine modifyEndpoint_self fun e he => ?_
  rw [hendpoint] at he
  cases he
  rw [← htag]

theorem tagAt_modifyTag_self {tag : Tag} (htag : c.tagAt place = .ok tag) (f : Tag → Tag) :
    (c.modifyTag place f).tagAt place = .ok (f tag) := by
  obtain ⟨endpoint, hendpoint, hhas⟩ := tagAt_eq_ok_iff.mp htag
  refine tagAt_eq_ok_iff.mpr ⟨{ endpoint with tag := endpoint.tag.map f }, ?_, by simp [hhas]⟩
  rw [modifyTag, getElem?_modifyEndpoint, if_pos rfl, hendpoint, Option.map_some]

theorem tagAt_modifyEndpoint {f : Endpoint → Endpoint}
    (h : place = other → ∀ e, (f e).tag = e.tag) :
    (c.modifyEndpoint place f).tagAt other = c.tagAt other := by
  rw [tagAt, tagAt, getElem?_modifyEndpoint]
  by_cases hplace : place = other
  · rw [if_pos hplace]
    cases c.endpoints[other]? <;> simp [h hplace]
  · rw [if_neg hplace]

theorem tagAt_modifyTag_of_ne (h : place ≠ other) (f : Tag → Tag) :
    (c.modifyTag place f).tagAt other = c.tagAt other :=
  tagAt_modifyEndpoint fun hsame => absurd hsame h

theorem endpoint_modifyTag (c : Controller) (place : Nat) (f : Tag → Tag) (other : Nat) :
    (c.endpoints[other]? = none ∧ (c.modifyTag place f).endpoints[other]? = none) ∨
      ∃ e tag, c.endpoints[other]? = some e ∧
        (c.modifyTag place f).endpoints[other]? = some { e with tag := tag } := by
  rw [modifyTag, getElem?_modifyEndpoint]
  cases c.endpoints[other]? with
  | none => exact .inl ⟨rfl, by simp⟩
  | some e =>
    by_cases hplace : place = other
    · exact .inr ⟨e, e.tag.map f, rfl, by simp [hplace]⟩
    · exact .inr ⟨e, e.tag, rfl, by simp [hplace]⟩

/-- A change of a tag tells where it was made and what it made of the tag. -/
theorem eq_of_modifyTag_eq {tag : Tag} {f g : Tag → Tag} (htag : c.tagAt place = .ok tag)
    (hchange : f tag ≠ tag) (heq : c.modifyTag place f = c.modifyTag other g) :
    place = other ∧ f tag = g tag := by
  have hself := tagAt_modifyTag_self htag f
  by_cases hp : place = other
  · subst hp
    rw [heq, tagAt_modifyTag_self htag g, Except.ok.injEq] at hself
    exact ⟨rfl, hself.symm⟩
  · rw [heq, tagAt_modifyTag_of_ne (Ne.symm hp), htag, Except.ok.injEq] at hself
    exact absurd hself.symm hchange

end NearField.Emulator.Controller
