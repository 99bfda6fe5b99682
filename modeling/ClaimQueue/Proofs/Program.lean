import ClaimQueue.Program

/-! What a program asks, in the light of what it was told before. The answers may be any. -/

namespace ClaimQueue

/-- A question with its answer. -/
abbrev Exchange (I : Interface) := (q : I.Request) × I.Answer q

namespace Program

variable {I : Interface} {α β σ : Type}

/-- By some exchanges, the latest first, the program comes to what is left of it. -/
inductive Reaches (p : Program I α) : List (Exchange I) → Program I α → Prop
  | start : Reaches p [] p
  | answer {past : List (Exchange I)} {q : I.Request} {next : I.Answer q → Program I α}
      (h : Reaches p past (.ask q next)) (r : I.Answer q) : Reaches p (⟨q, r⟩ :: past) (next r)

/-- What a program comes to in surroundings that answer by what was told before, and keep it. -/
theorem Reaches.of_run (answer : (q : I.Request) → List (Exchange I) → I.Answer q)
    {told : List (Exchange I)} {a : α} {start : Program I α} (reaches : Reaches start past p)
    (run : p.run (fun q past => (answer q past, ⟨q, answer q past⟩ :: past)) past = (some a, told)) :
    Reaches start told (.done a) := by
  induction p generalizing past with
  | done b =>
    cases run
    exact reaches
  | ask x next ih => exact ih _ (reaches.answer _) run
  | spent => cases run

/-- What is done after a program that came to its end. -/
theorem run_bind_of_some {answer : (q : I.Request) → σ → I.Answer q × σ} {p : Program I α} {s t : σ}
    {a : α} {f : α → Program I β} (h : p.run answer s = (some a, t)) :
    (p.bind f).run answer s = (f a).run answer t := by
  rw [run_bind, h]

section

variable {ε : Type} {answer : (q : I.Request) → σ → I.Answer q × σ} {s t : σ}
  {j : ExceptT ε (Program I) α} {f : α → ExceptT ε (Program I) β}

/-! Work that a failure ends. -/

theorem run_bind_of_ok {a : α} (h : j.run.run answer s = (some (.ok a), t)) :
    (j >>= f).run.run answer s = (f a).run.run answer t := run_bind_of_some h

theorem run_bind_of_error {e : ε} (h : j.run.run answer s = (some (.error e), t)) :
    (j >>= f).run.run answer s = (some (.error e), t) := run_bind_of_some h

theorem run_lift_bind {p : Program I α} {a : α} (h : p.run answer s = (some a, t)) :
    (ExceptT.lift p >>= f).run.run answer s = (f a).run.run answer t :=
  run_bind_of_ok (run_bind_of_some h)

section

variable {S : Type} {body : S → ExceptT ε (Program I) (S ⊕ α)} {n : Nat} {x y : S} {a : α}

theorem run_tryLoop_of_next (h : (body x).run.run answer s = (some (.ok (.inl y)), t)) :
    (tryLoop body (n + 1) x).run.run answer s = (tryLoop body n y).run.run answer t :=
  (run_bind_of_some (run_bind_of_some h)).trans rfl

theorem run_tryLoop_of_end (h : (body x).run.run answer s = (some (.ok (.inr a)), t)) :
    (tryLoop body (n + 1) x).run.run answer s = (some (.ok a), t) :=
  (run_bind_of_some (run_bind_of_some h)).trans rfl

theorem run_tryLoop_of_error {e : ε} (h : (body x).run.run answer s = (some (.error e), t)) :
    (tryLoop body (n + 1) x).run.run answer s = (some (.error e), t) :=
  (run_bind_of_some (run_bind_of_some h)).trans rfl

end

/-- Where the whole did not fail, neither of its parts did. -/
theorem run_bind_eq_ok {b : β} (h : (j >>= f).run.run answer s = (some (.ok b), t)) :
    ∃ a u, j.run.run answer s = (some (.ok a), u) ∧ (f a).run.run answer u = (some (.ok b), t) := by
  have split := (run_bind answer j.run _ s).symm.trans h
  rcases run : j.run.run answer s with ⟨_ | _ | a, u⟩
  · rw [run] at split
    cases split
  · rw [run] at split
    cases split
  · rw [run] at split
    exact ⟨a, u, rfl, split⟩

end

/-- A program whose questions are answered by one part of the surroundings leaves the rest as it is.
`into` puts that part in its place. -/
theorem run_lower {J : Interface} {τ : Type} {answer : (q : J.Request) → τ → J.Answer q × τ}
    {part : (q : I.Request) → σ → I.Answer q × σ} {ask : (q : I.Request) → Program J (I.Answer q)}
    {into : σ → τ}
    (each : ∀ q s, (ask q).run answer (into s) = (some (part q s).1, into (part q s).2))
    (p : Program I α) (s : σ) :
    (p.lower ask).run answer (into s) = ((p.run part s).1, into (p.run part s).2) := by
  induction p generalizing s with
  | done a => rfl
  | ask q next ih => exact (run_bind_of_some (each q s)).trans (ih _ _)
  | spent => rfl

/-- Each question is fit to be asked after what was told, and so is each result after all of it. -/
def Along (fit : List (Exchange I) → I.Request → Prop) (ends : List (Exchange I) → α → Prop) :
    Program I α → List (Exchange I) → Prop
  | done a, past => ends past a
  | ask q next, past => fit past q ∧ ∀ r, (next r).Along fit ends (⟨q, r⟩ :: past)
  | spent, _ => True

variable {fit : List (Exchange I) → I.Request → Prop} {ends : List (Exchange I) → α → Prop}
  {p q : Program I α} {past : List (Exchange I)}

theorem Reaches.trans {start : Program I α} {before after : List (Exchange I)} (first : Reaches start before p)
    (more : Reaches p after q) : Reaches start (after ++ before) q := by
  induction more with
  | start => exact first
  | answer _ r ih => exact ih.answer r

theorem Reaches.of_done {a : α} (h : Reaches (.done a) past q) : past = [] ∧ q = .done a := by
  induction h with
  | start => exact ⟨rfl, rfl⟩
  | answer _ r ih => cases ih.2

/-- What comes after the first answer. -/
theorem Reaches.of_first {x : I.Request} {next : I.Answer x → Program I α} {r : I.Answer x}
    (h : Reaches (.ask x next) (past ++ [⟨x, r⟩]) q) : Reaches (next r) past q := by
  generalize told : past ++ [⟨x, r⟩] = all at h
  induction h generalizing past with
  | start => simp at told
  | @answer earlier y after h r' ih =>
    cases past with
    | nil =>
      cases told
      cases h
      exact .start
    | cons z past =>
      cases told
      exact (ih rfl).answer r'

theorem Reaches.bind (h : Reaches p past q) (f : α → Program I β) :
    Reaches (p.bind f) past (q.bind f) := by
  induction h with
  | start => exact .start
  | answer _ r ih => exact ih.answer r

theorem Along.of_reaches (h : p.Along fit ends []) (reaches : Reaches p past q) :
    q.Along fit ends past := by
  induction reaches with
  | start => exact h
  | answer _ r ih => exact ih.2 r

theorem Along.question {x : I.Request} {next : I.Answer x → Program I α} (h : p.Along fit ends [])
    (reaches : Reaches p past (.ask x next)) : fit past x :=
  (h.of_reaches reaches).1

theorem Along.outcome {a : α} (h : p.Along fit ends []) (reaches : Reaches p past (.done a)) :
    ends past a :=
  h.of_reaches reaches

theorem Along.mono {ends' : List (Exchange I) → α → Prop} (h : p.Along fit ends past)
    (weaker : ∀ past a, ends past a → ends' past a) : p.Along fit ends' past := by
  induction p generalizing past with
  | done a => exact weaker past a h
  | ask x next ih => exact ⟨h.1, fun r => ih r (h.2 r)⟩
  | spent => trivial

theorem Along.weaken {fit' : List (Exchange I) → I.Request → Prop} (h : p.Along fit ends past)
    (fitter : ∀ past q, fit past q → fit' past q) : p.Along fit' ends past := by
  induction p generalizing past with
  | done a => exact h
  | ask x next ih => exact ⟨fitter past x h.1, fun r => ih r (h.2 r)⟩
  | spent => trivial

theorem Along.bind {ends' : List (Exchange I) → β → Prop} {f : α → Program I β}
    (h : p.Along fit ends past) (more : ∀ past a, ends past a → (f a).Along fit ends' past) :
    (p.bind f).Along fit ends' past := by
  induction p generalizing past with
  | done a => exact more past a h
  | ask x next ih => exact ⟨h.1, fun r => ih r (h.2 r)⟩
  | spent => trivial

theorem along_call {x : I.Request} (h : fit past x) :
    (call x).Along fit (fun now a => now = ⟨x, a⟩ :: past) past :=
  ⟨h, fun _ => rfl⟩

/-- Whatever it is told, it comes to its end after at most so many questions. -/
def Within : Program I α → Nat → Prop
  | done _, _ => True
  | ask _ next, n => ∃ m, m < n ∧ ∀ r, (next r).Within m
  | spent, _ => False

theorem Within.mono {m n : Nat} (h : p.Within m) (le : m ≤ n) : p.Within n := by
  cases p with
  | done a => trivial
  | ask x next =>
    obtain ⟨k, less, more⟩ := h
    exact ⟨k, Nat.lt_of_lt_of_le less le, more⟩
  | spent => exact h.elim

theorem Within.bind {m n : Nat} {f : α → Program I β} (h : p.Within m)
    (more : ∀ a, (f a).Within n) : (p.bind f).Within (m + n) := by
  induction p generalizing m with
  | done a => exact (more a).mono (Nat.le_add_left n m)
  | ask x next ih =>
    obtain ⟨k, less, after⟩ := h
    exact ⟨k + n, Nat.add_lt_add_right less n, fun r => ih r (after r)⟩
  | spent => exact h.elim

theorem Within.run {n : Nat} (h : p.Within n) (answer : (q : I.Request) → σ → I.Answer q × σ) (s : σ) :
    ∃ a t, p.run answer s = (some a, t) := by
  induction p generalizing n s with
  | done a => exact ⟨a, s, rfl⟩
  | ask x next ih =>
    obtain ⟨k, -, after⟩ := h
    exact ih _ (after _) _
  | spent => exact h.elim

/-- What holds before each round, of what was told and of the state. -/
theorem along_loop {body : σ → Program I (σ ⊕ α)} (inv : List (Exchange I) → σ → Prop)
    (round : ∀ past s, inv past s → (body s).Along fit (fun now r => match r with
      | .inl s => inv now s
      | .inr a => ends now a) past)
    (rounds : Nat) {s : σ} (h : inv past s) : (loop body rounds s).Along fit ends past := by
  induction rounds generalizing past s with
  | zero => trivial
  | succ rounds ih =>
    refine (round past s h).bind fun now r told => ?_
    cases r with
    | inl s => exact ih told
    | inr a => exact told

section

variable {S T : Type}

/-- One round of a loop that gathers what a source gives, the latest first. -/
def gatherRound (next : S → Program I (Option (α × S))) (keep : α → Bool) (x : S × List α) :
    Program I ((S × List α) ⊕ List α) := do
  match ← next x.1 with
  | none => return .inr x.2.reverse
  | some (a, s) => return .inl (s, if keep a then a :: x.2 else x.2)

/-- The same, until so many are kept. -/
def gatherFirst (most : Nat) (next : S → Program I (Option (α × S))) (keep : α → Bool)
    (x : S × List α) : Program I ((S × List α) ⊕ List α) :=
  if x.2.length = most then pure (.inr x.2.reverse) else gatherRound next keep x

/-- What a source gives is the first of its items, and the others are left. -/
inductive Draws (left : S → T → List α → Prop) (final : T) : List α → Option (α × S) → T → Prop
  | nothing : Draws left final [] none final
  | item {a : α} {s : S} {t : T} {items : List α} (rest : left s t items) :
      Draws left final (a :: items) (some (a, s)) t

theorem reverse_kept (keep : α → Bool) (found : List α) (a : α) (items : List α) :
    (if keep a then a :: found else found).reverse ++ items.filter keep =
      found.reverse ++ (a :: items).filter keep := by
  by_cases wanted : keep a = true <;> simp [wanted]

/-- All items of a source, in their order. -/
theorem run_gather {answer : (q : I.Request) → T → I.Answer q × T}
    {next : S → Program I (Option (α × S))} {left : S → T → List α → Prop} {final : T}
    (draw : ∀ s t items, left s t items → ∃ o u, (next s).run answer t = (some o, u) ∧
      Draws left final items o u) (keep : α → Bool) {n : Nat} {s : S} {t : T} {items : List α}
    (start : left s t items) (enough : items.length < n) (found : List α) :
    (loop (gatherRound next keep) n (s, found)).run answer t =
      (some (found.reverse ++ items.filter keep), final) := by
  induction n generalizing s t items found with
  | zero => exact absurd enough (Nat.not_lt_zero _)
  | succ n ih =>
    obtain ⟨o, u, run, drawn⟩ := draw s t items start
    cases drawn with
    | nothing =>
      have round : (gatherRound next keep (s, found)).run answer t =
          (some (.inr found.reverse), final) := run_bind_of_some run
      rw [List.filter_nil, List.append_nil]
      exact run_bind_of_some round
    | @item a s' _ items rest =>
      let kept := if keep a then a :: found else found
      have round : (gatherRound next keep (s, found)).run answer t = (some (.inl (s', kept)), u) :=
        run_bind_of_some run
      have gathered := ih rest (Nat.lt_of_succ_lt_succ enough) kept
      rw [reverse_kept] at gathered
      exact (run_bind_of_some round).trans gathered

/-- The first items of a source, in their order. -/
theorem run_gatherFirst {answer : (q : I.Request) → T → I.Answer q × T}
    {next : S → Program I (Option (α × S))} {left : S → T → List α → Prop} {final : T}
    (draw : ∀ s t items, left s t items → ∃ o u, (next s).run answer t = (some o, u) ∧
      Draws left final items o u) (keep : α → Bool) {most n : Nat} {s : S} {t : T} {items : List α}
    (start : left s t items) (enough : items.length < n) {found : List α} (few : found.length ≤ most) :
    ∃ u, (loop (gatherFirst most next keep) n (s, found)).run answer t =
      (some ((found.reverse ++ items.filter keep).take most), u) := by
  induction n generalizing s t items found with
  | zero => exact absurd enough (Nat.not_lt_zero _)
  | succ n ih =>
    by_cases full : found.length = most
    · have round : (gatherFirst most next keep (s, found)).run answer t =
          (some (.inr found.reverse), t) := by
        rw [gatherFirst, if_pos full]
        rfl
      rw [List.take_left' (by rw [List.length_reverse, full])]
      exact ⟨t, run_bind_of_some round⟩
    · have goes : gatherFirst most next keep (s, found) = gatherRound next keep (s, found) :=
        if_neg full
      obtain ⟨o, u, run, drawn⟩ := draw s t items start
      cases drawn with
      | nothing =>
        have round : (gatherFirst most next keep (s, found)).run answer t =
            (some (.inr found.reverse), final) := goes ▸ run_bind_of_some run
        rw [List.filter_nil, List.append_nil, List.take_of_length_le (by rwa [List.length_reverse])]
        exact ⟨final, run_bind_of_some round⟩
      | @item a s' _ items rest =>
        let kept := if keep a then a :: found else found
        have round : (gatherFirst most next keep (s, found)).run answer t =
            (some (.inl (s', kept)), u) := goes ▸ run_bind_of_some run
        have few : kept.length ≤ most := by
          have less := Nat.lt_of_le_of_ne few full
          unfold kept
          split
          · exact less
          · exact few
        obtain ⟨v, gathered⟩ := ih rest (Nat.lt_of_succ_lt_succ enough) few
        rw [reverse_kept] at gathered
        exact ⟨v, (run_bind_of_some round).trans gathered⟩

end

/-- What was told so far, split at one exchange: its question was asked after what is before it. -/
theorem Reaches.asked {later earlier : List (Exchange I)} {x : Exchange I} (reaches : Reaches p past q)
    (split : past = later ++ x :: earlier) : ∃ next, Reaches p earlier (.ask x.1 next) := by
  induction reaches generalizing later with
  | start => simp at split
  | @answer past y next h r ih =>
    cases later with
    | nil =>
      cases split
      exact ⟨next, h⟩
    | cons z later => exact ih (List.cons.inj split).2

/-- As with `Along`, and what was told is also fit where a loop has used up its rounds. -/
def Keeps (fit : List (Exchange I) → I.Request → Prop) (ends : List (Exchange I) → Option α → Prop) :
    Program I α → List (Exchange I) → Prop
  | done a, past => ends past (some a)
  | ask q next, past => fit past q ∧ ∀ r, (next r).Keeps fit ends (⟨q, r⟩ :: past)
  | spent, past => ends past none

section

variable {ends : List (Exchange I) → Option α → Prop}

theorem Keeps.of_reaches (h : p.Keeps fit ends []) (reaches : Reaches p past q) :
    q.Keeps fit ends past := by
  induction reaches with
  | start => exact h
  | answer _ r ih => exact ih.2 r

/-- Every question asked was fit. -/
theorem Keeps.asked {later earlier : List (Exchange I)} {x : Exchange I} (h : p.Keeps fit ends [])
    (reaches : Reaches p past q) (split : past = later ++ x :: earlier) : fit earlier x.1 := by
  obtain ⟨next, reaches⟩ := reaches.asked split
  exact (h.of_reaches reaches).1

theorem Keeps.mono {fit' : List (Exchange I) → I.Request → Prop}
    {ends' : List (Exchange I) → Option α → Prop} (h : p.Keeps fit ends past)
    (fitter : ∀ past q, fit past q → fit' past q) (weaker : ∀ past a, ends past a → ends' past a) :
    p.Keeps fit' ends' past := by
  induction p generalizing past with
  | done a => exact weaker past _ h
  | ask x next ih => exact ⟨fitter past x h.1, fun r => ih r (h.2 r)⟩
  | spent => exact weaker past _ h

theorem Keeps.bind {ends' : List (Exchange I) → Option β → Prop} {f : α → Program I β}
    (h : p.Keeps fit ends past)
    (more : ∀ past a, ends past (some a) → (f a).Keeps fit ends' past)
    (stop : ∀ past, ends past none → ends' past none) : (p.bind f).Keeps fit ends' past := by
  induction p generalizing past with
  | done a => exact more past a h
  | ask x next ih => exact ⟨h.1, fun r => ih r (h.2 r)⟩
  | spent => exact stop past h

/-- What holds of every fit question holds of all that were asked. -/
theorem Keeps.all {P : I.Request → Prop} (h : p.Keeps fit ends past)
    (each : ∀ past q, fit past q → P q) (told : ∀ x ∈ past, P x.1) :
    p.Keeps (fun now q => fit now q ∧ ∀ x ∈ now, P x.1)
      (fun now a => ends now a ∧ ∀ x ∈ now, P x.1) past := by
  induction p generalizing past with
  | done a => exact ⟨h, told⟩
  | spent => exact ⟨h, told⟩
  | ask x next ih =>
    refine ⟨⟨h.1, told⟩, fun r => ih r (h.2 r) fun y mem => ?_⟩
    rcases List.mem_cons.mp mem with rfl | mem
    · exact each past x h.1
    · exact told y mem

/-- What a program keeps by itself, it keeps after anything. -/
theorem Keeps.after (h : p.Keeps fit ends past) (before : List (Exchange I)) :
    p.Keeps (fun now q => ∃ new, now = new ++ before ∧ fit new q)
      (fun now a => ∃ new, now = new ++ before ∧ ends new a) (past ++ before) := by
  induction p generalizing past with
  | done a => exact ⟨past, rfl, h⟩
  | ask x next ih => exact ⟨⟨past, rfl, h.1⟩, fun r => ih r (h.2 r)⟩
  | spent => exact ⟨past, rfl, h⟩

theorem Keeps.and {fit' : List (Exchange I) → I.Request → Prop}
    {ends' : List (Exchange I) → Option α → Prop} (h : p.Keeps fit ends past)
    (h' : p.Keeps fit' ends' past) :
    p.Keeps (fun now q => fit now q ∧ fit' now q) (fun now a => ends now a ∧ ends' now a) past := by
  induction p generalizing past with
  | done a => exact ⟨h, h'⟩
  | ask x next ih => exact ⟨⟨h.1, h'.1⟩, fun r => ih r (h.2 r) (h'.2 r)⟩
  | spent => exact ⟨h, h'⟩

/-- What a program keeps over one interface, it keeps over another as well, where what was told on
one goes with what was told on the other. -/
theorem Keeps.lower {J : Interface} {answer : (q : I.Request) → Program J (I.Answer q)}
    {fit' : List (Exchange J) → J.Request → Prop} {ends' : List (Exchange J) → Option α → Prop}
    (goes : List (Exchange J) → List (Exchange I) → Prop)
    (each : ∀ told past q, goes told past → fit past q → (answer q).Keeps fit'
      (fun now r => match r with
        | some r => goes now (⟨q, r⟩ :: past)
        | none => ends' now none) told)
    (last : ∀ told past a, goes told past → ends past a → ends' told a)
    (h : p.Keeps fit ends past) {told : List (Exchange J)} (along : goes told past) :
    (p.lower answer).Keeps fit' ends' told := by
  induction p generalizing past told with
  | done a => exact last told past _ along h
  | ask x next ih =>
    refine (each told past x along h.1).bind (fun now r along => ?_) fun _ none => none
    exact ih r (h.2 r) along
  | spent => exact last told past _ along h

theorem keeps_loop {body : σ → Program I (σ ⊕ α)} (inv : List (Exchange I) → σ → Prop)
    (round : ∀ past s, inv past s → (body s).Keeps fit (fun now (r : Option (σ ⊕ α)) => match r with
      | some (.inl s) => inv now s
      | some (.inr a) => ends now (some a)
      | none => False) past)
    (stop : ∀ past s, inv past s → ends past none)
    (rounds : Nat) {s : σ} (h : inv past s) : (loop body rounds s).Keeps fit ends past := by
  induction rounds generalizing past s with
  | zero => exact stop past s h
  | succ rounds ih =>
    refine (round past s h).bind (fun now r told => ?_) fun _ none => none.elim
    cases r with
    | inl s => exact ih told
    | inr a => exact told

end

end Program

end ClaimQueue
