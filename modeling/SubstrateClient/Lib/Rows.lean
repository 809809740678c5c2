import SubstrateClient.Lib.Fuel

/-!
# Rows of words, and where a loop panics

A loop over a list reads a word for each item. `Takes` says which words a round takes off the input
when it returns, `Passes` that with enough fuel it returns on each of them; then the loop takes a
row of words (`Takes.forEach`), and passes every row (`Passes.loop`).

A loop panics in one of its rounds: behind the row of the items before it (`Takes.panic`), and
behind every such row (`Passes.panics`); `RowBefore` is such a row. So a loop whose rounds panic
exactly on the inputs that begin with some word panics exactly behind a row and such a word
(`loop_panics_iff`).
-/

namespace SubstrateClient.Lib

variable {ε σ ι τ : Type} {input : τ → List σ}

/-- When the round returns, it has taken one of the words off the input. -/
def Takes (input : τ → List σ) (f : τ → Outcome ε τ) (W : List σ → Prop) : Prop :=
  ∀ s s', f s = .ok s' → ∃ w, W w ∧ input s = w ++ input s'

/-- With enough fuel the round returns on every input that begins with one of the words. -/
def Passes (input : τ → List σ) (F : Fueled ε τ τ) (W : List σ → Prop) : Prop :=
  ∀ w, W w → ∀ s rest, input s = w ++ rest → ∃ s', F.Yields s s' ∧ input s' = rest

/-- The list begins with one of the words. -/
def Begins (W : List σ → Prop) (l : List σ) : Prop := ∃ w, W w ∧ w <+: l

/-- A row of words of the items of the list before one of them. -/
def RowBefore (W : ι → List σ → Prop) (l : List ι) (x : ι) (u : List σ) : Prop :=
  ∃ pre post ws, l = pre ++ x :: post ∧ List.Forall₂ W pre ws ∧ u = ws.flatten

/-! ## What a loop takes -/

section Takes

variable {f : ι → τ → Outcome ε τ} {W : ι → List σ → Prop}

/-- **A loop takes a row of words**, one for each item. -/
theorem Takes.forEach : ∀ {l : List ι}, (∀ x ∈ l, Takes input (f x) (W x)) → ∀ {s s'},
    forEach l f s = .ok s' → ∃ ws, List.Forall₂ W l ws ∧ input s = ws.flatten ++ input s'
  | [], _, s, _, hs => by
    cases hs
    exact ⟨[], .nil, rfl⟩
  | x :: xs, h, s, s', hs => by
    obtain ⟨t, ht, hs'⟩ := Outcome.bind_eq_ok.mp hs
    obtain ⟨w, hw, hwi⟩ := h x List.mem_cons_self s t ht
    obtain ⟨ws, hws, hwsi⟩ := Takes.forEach (fun y hy => h y (List.mem_cons_of_mem x hy)) hs'
    exact ⟨w :: ws, .cons hw hws, by rw [hwi, hwsi, List.flatten_cons, List.append_assoc]⟩

/-- A loop that panics does so in one of its rounds, when the rounds before have returned. -/
theorem forEach_eq_panic : ∀ {l : List ι} {s : τ} {msg : String}, forEach l f s = .panic msg →
    ∃ pre x post t, l = pre ++ x :: post ∧ forEach pre f s = .ok t ∧ f x t = .panic msg
  | x :: xs, s, msg, hs => by
    rcases Outcome.bind_eq_panic.mp hs with hx | ⟨t, ht, hs'⟩
    · exact ⟨[], x, xs, s, rfl, rfl, hx⟩
    · obtain ⟨pre, y, post, t', rfl, ht', hy⟩ := forEach_eq_panic hs'
      exact ⟨x :: pre, y, post, t', rfl, Outcome.bind_eq_ok.mpr ⟨t, ht, ht'⟩, hy⟩

/-- **Where a loop panics**: in a round behind a row of the items before it. -/
theorem Takes.panic {l : List ι} (h : ∀ x ∈ l, Takes input (f x) (W x)) {s : τ} {msg : String}
    (hs : Lib.forEach l f s = .panic msg) :
    ∃ x u t, RowBefore W l x u ∧ input s = u ++ input t ∧ f x t = .panic msg := by
  obtain ⟨pre, x, post, t, rfl, ht, hx⟩ := forEach_eq_panic hs
  obtain ⟨ws, hws, hwsi⟩ := Takes.forEach (fun y hy => h y (List.mem_append_left _ hy)) ht
  exact ⟨x, ws.flatten, t, ⟨pre, post, ws, rfl, hws, rfl⟩, hwsi, hx⟩

end Takes

/-! ## What a loop passes -/

section Passes

variable {F : ι → Fueled ε τ τ} {W : ι → List σ → Prop}

/-- **A loop passes every row of words.** -/
theorem Passes.loop (hF : ∀ x, (F x).Mono) (h : ∀ x, Passes input (F x) (W x)) :
    ∀ {l : List ι} {ws : List (List σ)}, List.Forall₂ W l ws → ∀ {s rest},
      input s = ws.flatten ++ rest → ∃ s', (Fueled.loop l F).Yields s s' ∧ input s' = rest
  | _, _, .nil, s, rest, hs => ⟨s, ⟨0, rfl⟩, hs⟩
  | _, _, .cons hw hws, s, rest, hs => by
    rw [List.flatten_cons, List.append_assoc] at hs
    obtain ⟨t, ht, hti⟩ := h _ _ hw s _ hs
    obtain ⟨s', hs', hsi⟩ := Passes.loop hF h hws hti
    exact ⟨s', ht.andThen (hF _) (Fueled.Mono.loop fun x _ => hF x) hs', hsi⟩

/-- **A loop panics** behind every row of the items before a round that panics there. -/
theorem Passes.panics (hF : ∀ x, (F x).Mono) (h : ∀ x, Passes input (F x) (W x)) {l : List ι}
    {x : ι} {u : List σ} (hu : RowBefore W l x u) {s : τ} {rest : List σ}
    (hs : input s = u ++ rest) (hx : ∀ t, input t = rest → (F x).Panics t) :
    (Fueled.loop l F).Panics s := by
  obtain ⟨pre, post, ws, rfl, hws, rfl⟩ := hu
  obtain ⟨t, ht, hti⟩ := Passes.loop hF h hws hs
  have hmono : ∀ l, (Fueled.loop l F).Mono := fun l => Fueled.Mono.loop fun x _ => hF x
  rw [Fueled.loop_append]
  exact .second (hmono pre) (hmono _) ht (.first (hx t hti))

/-- **Exactly where a loop panics**, when `L` says where its rounds do. -/
theorem loop_panics_iff {L : ι → List σ → Prop} (hF : ∀ x, (F x).Mono)
    (ht : ∀ x n, Takes input (F x n) (W x)) (hp : ∀ x, Passes input (F x) (W x))
    (hL : ∀ x s, (F x).Panics s ↔ Begins (L x) (input s)) {l : List ι} {s : τ} :
    (Fueled.loop l F).Panics s ↔ ∃ x u v, RowBefore W l x u ∧ L x v ∧ u ++ v <+: input s := by
  constructor
  · rintro ⟨n, msg, h⟩
    obtain ⟨x, u, t, hu, hi, hx⟩ := Takes.panic (fun x _ => ht x n) h
    obtain ⟨v, hv, hpre⟩ := (hL x t).mp ⟨n, msg, hx⟩
    exact ⟨x, u, v, hu, hv, by rw [hi]; exact (List.prefix_append_right_inj u).mpr hpre⟩
  · rintro ⟨x, u, v, hu, hv, rest, hs⟩
    rw [List.append_assoc] at hs
    exact Passes.panics hF hp hu hs.symm fun t ht => (hL x t).mpr ⟨v, hv, rest, ht.symm⟩

end Passes

end SubstrateClient.Lib
