import SubstrateClient.Lib.Transcribe

/-!
# Decoders that end where the value ends

A decoder `Delimits` its values when it neither looks past a value nor stops short of it: what it
took off the input is read alike whatever follows, and no shorter part of it is read at all. The
words such a decoder accepts are prefix-free (`Delimits.prefixFree`).

A codec that round-trips and is canonical delimits (`Codec.delimits`). Steps that delimit are a
class (`delimits_class`): a part of a row that is cut off inside one of its words fails there.

A program around such steps has states of its own. All that matters of a state is its input and that
another can be put in its place (`HasInput`); the rules for a reader that is `Delimited` are those of
sequencing, of lookups and of loops.
-/

namespace SubstrateClient.Lib

/-- What the decoder took off the input is read alike before anything else, and no shorter part of
it is read. -/
def Codec.Delimits {α : Type} (c : Codec α) : Prop :=
  ∀ bs v rest, c.decode bs = .ok (v, rest) → ∃ w, bs = w ++ rest ∧
    (∀ t, c.decode (w ++ t) = .ok (v, t)) ∧
    ∀ p, p <+: w → p ≠ w → ∃ e, c.decode p = .error e

/-- A round trip tells where the value ends. -/
theorem Codec.delimits {α : Type} {c : Codec α} {P : α → Prop} (hr : ∀ v, P v → c.RoundTripsAt v)
    (hP : ∀ bs v rest, c.decode bs = .ok (v, rest) → P v) (hc : c.Canonical) : c.Delimits := by
  intro bs v rest h
  have hv : c.RoundTripsAt v := hr v (hP _ _ _ h)
  refine ⟨c.encode v, hc _ _ _ h, hv, fun p hp hne => ?_⟩
  cases hd : c.decode p with
  | error e => exact ⟨e, rfl⟩
  | ok r =>
    -- a shorter part that decodes would be all of it
    obtain ⟨u, rest'⟩ := r
    obtain ⟨q, hq⟩ := hp
    have hwhole := hr u (hP _ _ _ hd) (rest' ++ q)
    rw [← List.append_assoc, ← hc _ _ _ hd, hq, hv.decode_encode] at hwhole
    obtain ⟨-, hnil⟩ := Prod.mk.inj (Except.ok.inj hwhole)
    rw [(List.append_eq_nil_iff.mp hnil.symm).2, List.append_nil] at hq
    exact absurd hq hne

variable {ε σ : Type}

/-- What the step took off the input is read alike before anything else, with the same output, and
no shorter part of it is read. -/
def Delimits (f : Step ε σ) : Prop :=
  ∀ s s', f s = .ok s' → ∃ w v, s.input = w ++ s'.input ∧ s'.output = s.output ++ v ∧
    (∀ t out, f ⟨w ++ t, out⟩ = .ok ⟨t, out ++ v⟩) ∧
    ∀ p out, p <+: w → p ≠ w → ∃ e, f ⟨p, out⟩ = .err e

theorem delimits_ok : Delimits (.ok : Step ε σ) := by
  rintro s _ ⟨⟩
  refine ⟨[], [], rfl, (List.append_nil _).symm, fun t out => ?_, fun p out hp hne => ?_⟩
  · rw [List.nil_append, List.append_nil]
  · exact absurd (List.prefix_nil.mp hp) hne

/-- A step that never returns a value delimits. -/
theorem delimits_of_not_ok {f : Step ε σ} (h : ∀ s s', f s ≠ .ok s') : Delimits f :=
  fun s s' hs => absurd hs (h s s')

/-- A part of two words in a row ends in the first or goes on in the second. -/
theorem prefix_append_cases {p v w : List σ} (hp : p <+: v ++ w) (hne : p ≠ v ++ w) :
    (p <+: v ∧ p ≠ v) ∨ ∃ q, p = v ++ q ∧ q <+: w ∧ q ≠ w := by
  rcases List.prefix_or_prefix_of_prefix hp (List.prefix_append v w) with h | h
  · by_cases hv : p = v
    · refine Or.inr ⟨[], by rw [hv, List.append_nil], List.nil_prefix, ?_⟩
      rintro rfl
      exact hne (by rw [hv, List.append_nil])
    · exact Or.inl ⟨h, hv⟩
  · obtain ⟨q, rfl⟩ := h
    refine Or.inr ⟨q, rfl, (List.prefix_append_right_inj v).mp hp, ?_⟩
    rintro rfl
    exact hne rfl

/-- **Sequencing**: a part that ends in the first word fails there, one that goes on fails in the
second. -/
theorem Delimits.bind {f g : Step ε σ} (hf : Delimits f) (hg : Delimits g) :
    Delimits fun s => f s >>= g := by
  intro s s' hs
  obtain ⟨t, ht, hs'⟩ := Outcome.bind_eq_ok.mp hs
  obtain ⟨w, v, hwi, hvo, hfull, hpart⟩ := hf s t ht
  obtain ⟨w', v', hwi', hvo', hfull', hpart'⟩ := hg t s' hs'
  refine ⟨w ++ w', v ++ v', ?_, ?_, fun rest out => ?_, fun p out hp hne => ?_⟩
  · rw [hwi, hwi', List.append_assoc]
  · rw [hvo', hvo, List.append_assoc]
  · dsimp only
    rw [List.append_assoc, hfull, Outcome.ok_bind, hfull', List.append_assoc]
  · dsimp only
    rcases prefix_append_cases hp hne with ⟨hp, hne⟩ | ⟨q, rfl, hq, hne⟩
    · obtain ⟨e, he⟩ := hpart p out hp hne
      exact ⟨e, by rw [he, Outcome.err_bind]⟩
    · obtain ⟨e, he⟩ := hpart' q (out ++ v) hq hne
      exact ⟨e, by rw [hfull, Outcome.ok_bind, he]⟩

/-- A transcription, and a step that depends on the value. -/
theorem Delimits.transcribe {α : Type} {conv : String → ε} {c : Codec α} {g : α → Step ε UInt8}
    (hc : c.Delimits) (hg : ∀ v, Delimits (g v)) :
    Delimits fun s => transcribe conv c s >>= fun r => g r.1 r.2 := by
  intro s s' hs
  obtain ⟨⟨v, t⟩, ht, hs'⟩ := Outcome.bind_eq_ok.mp hs
  obtain ⟨hd, ho⟩ := transcribe_eq_ok.mp ht
  obtain ⟨w, hw, hfull, hpart⟩ := hc _ _ _ hd
  obtain ⟨w', u, hwi, huo, hfull', hpart'⟩ := hg v t s' hs'
  have hread : ∀ rest out, Lib.transcribe conv c ⟨w ++ rest, out⟩ =
      .ok (v, ⟨rest, out ++ c.encode v⟩) :=
    fun rest out => transcribe_eq_ok.mpr ⟨hfull rest, rfl⟩
  refine ⟨w ++ w', c.encode v ++ u, ?_, ?_, fun rest out => ?_, fun p out hp hne => ?_⟩
  · rw [hw, hwi, List.append_assoc]
  · rw [huo, ho, List.append_assoc]
  · dsimp only
    rw [List.append_assoc, hread, Outcome.ok_bind, hfull', List.append_assoc]
  · dsimp only
    rcases prefix_append_cases hp hne with ⟨hp, hne⟩ | ⟨q, rfl, hq, hne⟩
    · obtain ⟨e, he⟩ := hpart p hp hne
      exact ⟨conv e, by simp [Lib.transcribe, he]⟩
    · obtain ⟨e, he⟩ := hpart' q (out ++ c.encode v) hq hne
      exact ⟨e, by rw [hread, Outcome.ok_bind, he]⟩

/-- To delimit is a class, over the codecs that delimit. -/
theorem delimits_class : StepClass ε (fun _ => Codec.Delimits) Delimits where
  ok := delimits_ok
  bind := Delimits.bind
  of_not_ok := delimits_of_not_ok
  transcribe := Delimits.transcribe

/-- **The words a step reads to their end are prefix-free.** -/
theorem Delimits.prefixFree {f : Step ε σ} (hf : Delimits f) {w w' out out' : List σ}
    {s s' : Cursor σ} (h : f ⟨w, out⟩ = .ok s) (h' : f ⟨w', out'⟩ = .ok s') (hs' : s'.input = [])
    (hp : w <+: w') : w = w' := by
  obtain ⟨c, v, hc, -, -, hpart⟩ := hf _ _ h'
  rw [hs', List.append_nil] at hc
  by_contra hne
  obtain ⟨e, he⟩ := hpart w out (hc ▸ hp) (hc ▸ hne)
  rw [h] at he
  cases he

/-! ## Readers -/

/-- A state that carries an input. -/
class HasInput (τ : Type) (σ : outParam Type) where
  input : τ → List σ
  put : τ → List σ → τ
  input_put : ∀ s t, input (put s t) = t
  put_put : ∀ s t u, put (put s t) u = put s u
  put_input : ∀ s, put s (input s) = s

namespace HasInput

instance : HasInput (List σ) σ where
  input s := s
  put _ t := t
  input_put _ _ := rfl
  put_put _ _ _ := rfl
  put_input _ := rfl

instance {β τ : Type} [HasInput τ σ] : HasInput (β × τ) σ where
  input s := input s.2
  put s t := (s.1, put s.2 t)
  input_put s t := input_put s.2 t
  put_put s t u := Prod.ext rfl (put_put s.2 t u)
  put_input s := Prod.ext rfl (put_input s.2)

instance : HasInput (Cursor σ) σ where
  input := Cursor.input
  put s t := ⟨t, s.output⟩
  input_put _ _ := rfl
  put_put _ _ _ := rfl
  put_input _ := rfl

end HasInput

open HasInput

variable {ι τ τ' : Type} [HasInput τ σ] [HasInput τ' σ]

/-- What the reader took off the input is read alike before anything else, and no shorter part of it
is read. -/
def Delimited (f : List σ → Outcome ε τ) : Prop :=
  ∀ bs s, f bs = .ok s → ∃ w, bs = w ++ input s ∧ (∀ t, f (w ++ t) = .ok (put s t)) ∧
    ∀ p, p <+: w → p ≠ w → ∃ e, f p = .err e

namespace Delimited

theorem ok (s : τ) : Delimited (ε := ε) fun bs => .ok (put s bs) := by
  rintro bs _ ⟨⟩
  refine ⟨[], (input_put s bs).symm, fun t => ?_, fun p hp hne => ?_⟩
  · rw [List.nil_append, put_put]
  · exact absurd (List.prefix_nil.mp hp) hne

/-- A lookup before a reader takes nothing off the input. -/
theorem lookup {α : Type} {x : Outcome ε α} {f : α → List σ → Outcome ε τ}
    (h : ∀ a, Delimited (f a)) : Delimited fun bs => x >>= fun a => f a bs := by
  cases x with
  | ok a => exact h a
  | _ => exact fun _ _ hs => by cases hs

/-- **Sequencing**: a part that ends in the first word fails there, one that goes on fails in the
second. -/
theorem bind {f : List σ → Outcome ε τ} {g : τ → Outcome ε τ'} (hf : Delimited f)
    (hg : ∀ s, Delimited fun bs => g (put s bs)) : Delimited fun bs => f bs >>= g := by
  intro bs s' hs
  obtain ⟨s, hfs, hgs⟩ := Outcome.bind_eq_ok.mp hs
  obtain ⟨w, hw, hfull, hpart⟩ := hf bs s hfs
  obtain ⟨w', hw', hfull', hpart'⟩ := hg s (input s) s' ((congrArg g (put_input s)).trans hgs)
  refine ⟨w ++ w', by rw [hw, hw', List.append_assoc], fun t => ?_, fun p hp hne => ?_⟩
  · dsimp only
    rw [List.append_assoc, hfull, Outcome.ok_bind]
    exact hfull' t
  · dsimp only
    rcases prefix_append_cases hp hne with ⟨hp, hne⟩ | ⟨q, rfl, hq, hne⟩
    · obtain ⟨e, he⟩ := hpart p hp hne
      exact ⟨e, by rw [he, Outcome.err_bind]⟩
    · rw [hfull, Outcome.ok_bind]
      exact hpart' q hq hne

/-- **A loop**, when each of its rounds is. -/
theorem forEach {f : ι → τ → Outcome ε τ} :
    ∀ {l : List ι}, (∀ x ∈ l, ∀ s, Delimited fun bs => f x (put s bs)) → ∀ s,
      Delimited fun bs => forEach l f (put s bs)
  | [], _, s => ok s
  | x :: _, h, s => (h x List.mem_cons_self s).bind
      (Delimited.forEach fun y hy => h y (List.mem_cons_of_mem x hy))

/-- A codec that delimits. -/
theorem decode {α : Type} (conv : String → ε) {c : Codec α} (hc : c.Delimits) :
    Delimited fun bs => Outcome.ofExcept conv (c.decode bs) := by
  intro bs s hs
  rw [Outcome.ofExcept_eq_ok] at hs
  obtain ⟨w, hw, hfull, hpart⟩ := hc bs s.1 s.2 hs
  refine ⟨w, hw, fun t => Outcome.ofExcept_eq_ok.mpr (hfull t), fun p hp hne => ?_⟩
  obtain ⟨e, he⟩ := hpart p hp hne
  exact ⟨conv e, congrArg (Outcome.ofExcept conv) he⟩

/-- A step that delimits. -/
theorem step {f : Step ε σ} (hf : Delimits f) (s : Cursor σ) :
    Delimited fun bs => f (put s bs) := by
  intro bs s' hs
  obtain ⟨w, v, hw, hv, hfull, hpart⟩ := hf _ s' hs
  refine ⟨w, hw, fun t => ?_, fun p hp hne => hpart p s.output hp hne⟩
  have hput : (⟨t, s.output ++ v⟩ : Cursor σ) = put s' t := congrArg (Cursor.mk t) hv.symm
  rw [← hput]
  exact hfull t s.output

end Delimited

end SubstrateClient.Lib
