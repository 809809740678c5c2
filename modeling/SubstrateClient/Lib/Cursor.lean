import Mathlib.Algebra.BigOperators.Group.List.Basic
import Mathlib.Computability.Language
import Mathlib.Order.CompletePartialOrder
import SubstrateClient.Lib.Outcome

/-!
# Copying cursors

A `Cursor` is what a transcribing decoder threads through its calls: the symbols not yet read and
the symbols written so far. A `Step` moves a cursor and may fail.

* `Reads f L` (soundness): when `f` succeeds, the symbols it took off the input form a word of the
  language `L`, and exactly these symbols were appended to the output.
* `Accepts f w` (completeness): on every input that starts with `w`, whatever follows, `f` succeeds,
  leaves what follows and appends `w`.

Both are closed under sequencing: the language of a sequence is the product of the languages, and the
accepted words concatenate. The language of a loop is the product over its list (`Reads.forEach`). So
a decoder driven by a grammar is sound and complete as soon as its leaves are.

The loop runs on any state: `forEach_rel` is its invariant rule, and `forEach_le` says that it is
monotone in its body for the order of the fuel.
-/

namespace SubstrateClient.Lib

/-- The symbols left to read and the symbols written. -/
structure Cursor (σ : Type) where
  input : List σ
  output : List σ
  deriving DecidableEq, Repr

/-- A step of a transcribing decoder. -/
abbrev Step (ε σ : Type) := Cursor σ → Outcome ε (Cursor σ)

variable {ε σ ι τ : Type}

/-! ## The loop -/

/-- `for x in l { f(x)? }`, on any state. -/
def forEach (l : List ι) (f : ι → τ → Outcome ε τ) : τ → Outcome ε τ :=
  match l with
  | [] => .ok
  | x :: xs => fun s => f x s >>= forEach xs f

@[simp] theorem forEach_nil (f : ι → τ → Outcome ε τ) (s : τ) : forEach [] f s = .ok s := rfl

@[simp] theorem forEach_cons (x : ι) (xs : List ι) (f : ι → τ → Outcome ε τ) (s : τ) :
    forEach (x :: xs) f s = (f x s >>= forEach xs f) := rfl

theorem forEach_map {κ : Type} (g : κ → ι) (f : ι → τ → Outcome ε τ) :
    ∀ l : List κ, forEach l (fun x => f (g x)) = forEach (l.map g) f
  | [] => rfl
  | x :: xs => by
    funext s
    rw [forEach_cons, List.map_cons, forEach_cons, forEach_map g f xs]

/-- A loop that ignores its items depends on their number only. -/
theorem forEach_const {κ : Type} (f : τ → Outcome ε τ) {l : List ι} {l' : List κ}
    (h : l.length = l'.length) : forEach l (fun _ => f) = forEach l' (fun _ => f) := by
  have hl := forEach_map (fun _ => ()) (fun _ => f) l
  have hl' := forEach_map (fun _ => ()) (fun _ => f) l'
  rw [List.map_const', h] at hl
  rw [List.map_const'] at hl'
  rw [hl, hl']

/-- **The invariant rule**: a reflexive and transitive relation that every round keeps relates the
states before and after the loop. -/
theorem forEach_rel {f : ι → τ → Outcome ε τ} {R : τ → τ → Prop} (hrefl : ∀ s, R s s)
    (htrans : ∀ s t u, R s t → R t u → R s u) :
    ∀ {l : List ι}, (∀ x ∈ l, ∀ s s', f x s = .ok s' → R s s') →
      ∀ {s s'}, forEach l f s = .ok s' → R s s'
  | [], _, s, _, hs => by
    cases hs
    exact hrefl s
  | x :: xs, h, s, s', hs => by
    obtain ⟨t, ht, hs'⟩ := Outcome.bind_eq_ok.mp hs
    exact htrans s t s' (h x List.mem_cons_self s t ht)
      (forEach_rel hrefl htrans (fun y hy => h y (List.mem_cons_of_mem x hy)) hs')

/-- A property of the state that every round keeps holds after the loop. -/
theorem forEach_inv {f : ι → τ → Outcome ε τ} {p : τ → Prop} {l : List ι}
    (h : ∀ x ∈ l, ∀ s s', f x s = .ok s' → p s → p s') {s s' : τ}
    (hs : forEach l f s = .ok s') : p s → p s' :=
  forEach_rel (R := fun s s' => p s → p s') (fun _ => id) (fun _ _ _ hst htu hp => htu (hst hp)) h
    hs

/-- The loop is monotone in its body, for the order of the fuel. -/
theorem forEach_le {f g : ι → τ → Outcome ε τ} :
    ∀ {l : List ι}, (∀ x ∈ l, ∀ s, (f x s).Le (g x s)) → ∀ s, (forEach l f s).Le (forEach l g s)
  | [], _, _ => Outcome.Le.refl _
  | x :: _, h, s =>
    (h x List.mem_cons_self s).bind (forEach_le fun y hy => h y (List.mem_cons_of_mem x hy))

/-! ## Soundness: what was read is in a language and was copied -/

/-- A successful run takes a word of `L` off the input and appends it to the output. -/
def Reads (f : Step ε σ) (L : Language σ) : Prop :=
  ∀ s s', f s = .ok s' → ∃ w ∈ L, s.input = w ++ s'.input ∧ s'.output = s.output ++ w

/-- A successful run appends what it took off the input, whatever it is. -/
def Copies (f : Step ε σ) : Prop := Reads f ⊤

theorem Reads.mono {f : Step ε σ} {L M : Language σ} (h : Reads f L) (hLM : L ≤ M) :
    Reads f M := by
  intro s s' hs
  obtain ⟨w, hw, hi, ho⟩ := h s s' hs
  exact ⟨w, hLM hw, hi, ho⟩

theorem Reads.copies {f : Step ε σ} {L : Language σ} (h : Reads f L) : Copies f :=
  h.mono le_top

theorem Copies.split {f : Step ε σ} (h : Copies f) {s s' : Cursor σ} (hs : f s = .ok s') :
    ∃ w, s.input = w ++ s'.input ∧ s'.output = s.output ++ w := by
  obtain ⟨w, -, hw⟩ := h s s' hs
  exact ⟨w, hw⟩

theorem reads_ok : Reads (.ok : Step ε σ) 1 := by
  rintro s _ ⟨⟩
  exact ⟨[], Language.nil_mem_one, rfl, (List.append_nil _).symm⟩

/-- A step that never returns a value reads any language. -/
theorem reads_of_not_ok {f : Step ε σ} (L : Language σ) (h : ∀ s s', f s ≠ .ok s') : Reads f L :=
  fun s s' hs => absurd hs (h s s')

/-- **Sequencing multiplies languages.** -/
theorem Reads.bind {f g : Step ε σ} {L M : Language σ} (hf : Reads f L) (hg : Reads g M) :
    Reads (fun s => f s >>= g) (L * M) := by
  intro s s' hs
  obtain ⟨t, ht, hs'⟩ := Outcome.bind_eq_ok.mp hs
  obtain ⟨v, hv, hvi, hvo⟩ := hf s t ht
  obtain ⟨w, hw, hwi, hwo⟩ := hg t s' hs'
  refine ⟨v ++ w, Language.append_mem_mul hv hw, ?_, ?_⟩
  · rw [hvi, hwi, List.append_assoc]
  · rw [hwo, hvo, List.append_assoc]

/-- **A loop reads the product of its languages.** -/
theorem Reads.forEach {f : ι → Step ε σ} {L : ι → Language σ} :
    ∀ {l : List ι}, (∀ x ∈ l, Reads (f x) (L x)) → Reads (forEach l f) (l.map L).prod
  | [], _ => reads_ok
  | x :: xs, h => by
    rw [List.map_cons, List.prod_cons]
    exact Reads.bind (h x List.mem_cons_self)
      (Reads.forEach fun y hy => h y (List.mem_cons_of_mem x hy))

theorem Copies.bind {f g : Step ε σ} (hf : Copies f) (hg : Copies g) :
    Copies (fun s => f s >>= g) :=
  (Reads.bind hf hg).copies

/-! ## Completeness: a word is taken off whatever follows it -/

/-- `w` in front of any rest is read, copied, and the rest is left. -/
def Accepts (f : Step ε σ) (w : List σ) : Prop :=
  ∀ rest out, f ⟨w ++ rest, out⟩ = .ok ⟨rest, out ++ w⟩

theorem accepts_ok : Accepts (.ok : Step ε σ) [] := by
  intro rest out
  rw [List.nil_append, List.append_nil]

theorem Accepts.bind {f g : Step ε σ} {v w : List σ} (hf : Accepts f v) (hg : Accepts g w) :
    Accepts (fun s => f s >>= g) (v ++ w) := by
  intro rest out
  show (f ⟨v ++ w ++ rest, out⟩ >>= g) = _
  rw [List.append_assoc, hf, Outcome.ok_bind, hg, List.append_assoc]

end SubstrateClient.Lib
