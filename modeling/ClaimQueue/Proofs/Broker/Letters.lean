import ClaimQueue.Proofs.Broker.Burial

/-! The dead list may hold any bytes. An item that is a text but no letter is passed over, though it
takes a place among those that are asked for. An item that is no text is not passed over: the reply
cannot be read, and with it no letter. -/

namespace ClaimQueue

namespace Broker

open Server Job

/-- The letter that an item holds, if it can be read. -/
def letterOf? (item : List UInt8) : Option DeadLetter :=
  (Text.Utf8.text? item).bind fun raw => (DeadLetter.decoder.ofText raw).toOption

def isFor (id : String) (item : List UInt8) : Bool := (letterOf? item).any fun l => l.task.id == id

def Textual (items : List (List UInt8)) : Prop := ∀ item ∈ items, (Text.Utf8.text? item).isSome

instance (items : List (List UInt8)) : Decidable (Textual items) :=
  inferInstanceAs (Decidable (∀ item ∈ items, (Text.Utf8.text? item).isSome))

/-- Undisturbed, the call fails with `e` and leaves `v`. -/
def Refuses (s : Settings) (w : Server) (c : QueueCall) (e : QueueError) (v : Server) : Prop :=
  ∀ rounds, (answer rounds s c).run (Server.answer s) w = (some (.error e), v)

/-- The call lists the first letters that can be read, as many as are asked for. -/
def ListsFirst (s : Settings) (w : Server) (limit : Nat) : Prop :=
  Answers s w (.deadLetters limit) ((w.dead.filterMap letterOf?).take limit) w

/-- The first letter for the task is found wherever it lies, and nothing else is taken from the list.
Where there is none, none is found. -/
structure Finds (s : Settings) (w : Server) (id : String) : Prop where
  first : ∀ before item after l, w.dead = before ++ item :: after → letterOf? item = some l →
    l.task.id = id → (∀ other ∈ before, isFor id other = false) →
    Answers s w (.replay id) true
      ({ w with dead := before ++ after }.append (some (Text.Utf8.bytes l.task.encoded))) ∧
    Answers s w (.discard id) true { w with dead := before ++ after }
  none : (∀ item ∈ w.dead, isFor id item = false) →
    Answers s w (.replay id) false w ∧ Answers s w (.discard id) false w

variable {s : Settings} {w v : Server} {id : String} {items : List (List UInt8)}

/-! Items as texts. -/

theorem Textual.texts (h : Textual items) :
    ∃ texts : List String, items = texts.map Text.Utf8.bytes := by
  induction items with
  | nil => exact ⟨[], rfl⟩
  | cons item items ih =>
    rw [Textual, List.forall_mem_cons] at h
    obtain ⟨raw, text⟩ := Option.isSome_iff_exists.mp h.1
    obtain ⟨texts, rfl⟩ := ih h.2
    exact ⟨raw :: texts, by rw [List.map_cons, Text.Utf8.bytes_of_text? text]⟩

theorem texts?_of_not_textual (h : ¬ Textual items) :
    Reply.texts? (.list (items.map .bulk)) = none := by
  show (items.map Reply.bulk).mapM Reply.text? = none
  induction items with
  | nil => exact (h fun item mem => (List.not_mem_nil mem).elim).elim
  | cons item items ih =>
    rw [List.map_cons, List.mapM_cons]
    have text : (Reply.bulk item).text? = Text.Utf8.text? item := rfl
    rw [text]
    cases first : Text.Utf8.text? item with
    | none => rfl
    | some raw =>
      have rest : ¬ Textual items := fun rest =>
        h (List.forall_mem_cons.mpr ⟨by rw [first]; rfl, rest⟩)
      rw [ih rest]
      rfl

theorem letterOf?_bytes (raw : String) :
    letterOf? (Text.Utf8.bytes raw) = (DeadLetter.decoder.ofText raw).toOption := by
  rw [letterOf?, Text.Utf8.text?_bytes, Option.bind_some]

theorem letters_readable (texts : List String) :
    (Calls.readable texts).map Prod.snd = (texts.map Text.Utf8.bytes).filterMap letterOf? := by
  rw [Calls.readable, List.map_filterMap, List.filterMap_map]
  congr 1
  funext raw
  rw [Function.comp_apply, letterOf?_bytes]
  cases DeadLetter.decoder.ofText raw <;> rfl

/-! Listing. -/

theorem fails_read {α : Type} {parse : Reply → Option α} {c : Command} {r : Reply}
    (h : (w.perform s c).1 = .ok r) (unread : parse r = none) :
    Fails s w (read parse c) mistyped (w.perform s c).2 := by
  refine (gives_send h).fails ?_
  rw [unread]
  rfl

theorem answers_page {limit : Nat} (textual : Textual (w.dead.take (pageLength limit))) :
    Answers s w (.deadLetters limit) ((w.dead.take (pageLength limit)).filterMap letterOf?) w := by
  obtain ⟨texts, page⟩ := textual.texts
  rw [page, ← letters_readable]
  exact answers_deadLetters (gives_page page)

theorem refuses_page {limit : Nat} (unread : ¬ Textual (w.dead.take (pageLength limit))) :
    Refuses s w (.deadLetters limit) mistyped w := by
  cases limit with
  | zero => exact (unread fun item mem => (List.not_mem_nil mem).elim).elim
  | succ limit =>
    have failed : Fails s w (Calls.deadLetters (limit + 1)) mistyped w := by
      rw [Calls.deadLetters, if_neg (Nat.succ_ne_zero limit), ← pageLength]
      exact (fails_read (perform_page s w limit) (texts?_of_not_textual unread)).bind _
    exact fun _ => failed

theorem eq_take_append_iff {α : Type} {front rest : List α} {n : Nat} (short : front.length ≤ n) :
    front = (front ++ rest).take n ↔ n ≤ front.length ∨ rest = [] := by
  rw [List.take_append, List.take_of_length_le short, List.self_eq_append_right,
    List.take_eq_nil_iff, Nat.sub_eq_zero_iff_le]

/-- What is listed of a page are the first letters of all if each item is a letter, as many as are
asked for, or if no letter is left beyond the page; and not otherwise. -/
theorem page_eq_first_iff (dead : List (List UInt8)) (limit : Nat) :
    (dead.take (pageLength limit)).filterMap letterOf? = (dead.filterMap letterOf?).take limit ↔
      limit < 2 ^ 63 ∧ (∀ item ∈ dead.take limit, (letterOf? item).isSome) ∨
        ∀ item ∈ dead.drop (pageLength limit), letterOf? item = none := by
  have split : dead.filterMap letterOf? = (dead.take (pageLength limit)).filterMap letterOf? ++
      (dead.drop (pageLength limit)).filterMap letterOf? := by
    rw [← List.filterMap_append, List.take_append_drop]
  have few := List.length_filterMap_le letterOf? (dead.take (pageLength limit))
  have page := List.length_take (i := pageLength limit) (l := dead)
  have short : pageLength limit ≤ limit := Nat.min_le_left _ _
  rw [split, eq_take_append_iff (by omega), List.filterMap_eq_nil_iff]
  constructor
  · rintro (full | rest)
    · have same : pageLength limit = limit := by omega
      rw [same] at full few page
      refine .inl ⟨by unfold pageLength at same; omega, ?_⟩
      exact List.filterMap_length_eq_length.mp (by omega)
    · exact .inr rest
  · rintro (⟨within, all⟩ | rest)
    · have same : pageLength limit = limit := Nat.min_eq_left (by omega)
      rw [same] at page ⊢
      rw [List.filterMap_length_eq_length.mpr all, page]
      by_cases long : limit ≤ dead.length
      · exact .inl (by omega)
      · rw [List.drop_of_length_le (by omega)]
        exact .inr fun item mem => (List.not_mem_nil mem).elim
    · exact .inr rest

theorem listsFirst_iff (s : Settings) (w : Server) (limit : Nat) :
    ListsFirst s w limit ↔ Textual (w.dead.take (pageLength limit)) ∧
      (limit < 2 ^ 63 ∧ (∀ item ∈ w.dead.take limit, (letterOf? item).isSome) ∨
        ∀ item ∈ w.dead.drop (pageLength limit), letterOf? item = none) := by
  rw [← page_eq_first_iff]
  constructor
  · intro lists
    have lists := lists 0
    by_cases textual : Textual (w.dead.take (pageLength limit))
    · rw [answers_page textual 0] at lists
      exact ⟨textual, by simpa using lists⟩
    · rw [refuses_page textual 0] at lists
      cases lists
  · rintro ⟨textual, same⟩
    rw [ListsFirst, ← same]
    exact answers_page textual

/-! Finding. -/

theorem isFor_bytes {raw : String} {l : DeadLetter} (read : DeadLetter.decoder.ofText raw = .ok l)
    (id : String) : isFor id (Text.Utf8.bytes raw) = (l.task.id == id) := by
  rw [isFor, letterOf?_bytes, read]
  rfl

theorem letterFor?_of_none {texts : List String}
    (none : ∀ raw ∈ texts, isFor id (Text.Utf8.bytes raw) = false) :
    letterFor? id texts = .none := by
  refine List.find?_eq_none.mpr fun ⟨raw, l⟩ mem => ?_
  obtain ⟨among, read⟩ := mem_readable.mp mem
  rw [← isFor_bytes read, none raw among]
  exact Bool.false_ne_true

theorem letterFor?_of_first {before after : List String} {raw : String} {l : DeadLetter}
    (read : DeadLetter.decoder.ofText raw = .ok l) (same : l.task.id = id)
    (others : ∀ other ∈ before, isFor id (Text.Utf8.bytes other) = false) :
    letterFor? id (before ++ raw :: after) = some (raw, l) := by
  have none : (Calls.readable before).find? (fun e => e.2.task.id == id) = none :=
    letterFor?_of_none others
  have first : Calls.readable (raw :: after) = (raw, l) :: Calls.readable after :=
    List.filterMap_cons_some (by rw [read])
  rw [letterFor?, readable_append, List.find?_append, none, Option.none_or, first, List.find?_cons,
    beq_iff_eq.mpr same]

theorem gives_first {before after : List (List UInt8)} {item : List UInt8} {l : DeadLetter}
    (dead : w.dead = before ++ item :: after) (textual : Textual w.dead)
    (read : letterOf? item = some l) (same : l.task.id = id)
    (others : ∀ other ∈ before, isFor id other = false) :
    Gives s w (Calls.takeLetter id) (some l) { w with dead := before ++ after } := by
  have itself : isFor id item = true := by rw [isFor, read, Option.any_some, beq_iff_eq.mpr same]
  have new : item ∉ before := fun mem => by
    rw [others item mem] at itself
    cases itself
  have gone : w.dead.erase item = before ++ after := by
    rw [dead, List.erase_append_right _ new, List.erase_cons_head]
  rw [Textual, dead, List.forall_mem_append, List.forall_mem_cons] at textual
  obtain ⟨texts, rfl⟩ := Textual.texts textual.1
  obtain ⟨texts', rfl⟩ := Textual.texts textual.2.2
  obtain ⟨raw, text⟩ := Option.isSome_iff_exists.mp textual.2.1
  obtain rfl := Text.Utf8.bytes_of_text? text
  have letter : DeadLetter.decoder.ofText raw = .ok l := by
    rw [letterOf?_bytes] at read
    cases decoded : DeadLetter.decoder.ofText raw with
    | ok m =>
      rw [decoded] at read
      cases read
      rfl
    | error fault =>
      rw [decoded] at read
      cases read
  rw [← gone]
  have written : w.dead = (texts ++ raw :: texts').map Text.Utf8.bytes := by
    rw [dead, List.map_append, List.map_cons]
  exact gives_taking written (letterFor?_of_first letter same fun other mem =>
    others _ (List.mem_map_of_mem mem))

theorem finds_of_textual (textual : Textual w.dead) (id : String) : Finds s w id where
  first before item after l dead read same others := by
    have taken := gives_first (s := s) dead textual read same others
    exact ⟨answers_replay taken, answers_discard taken⟩
  none absent := by
    obtain ⟨texts, dead⟩ := textual.texts
    have taken := gives_taking_none (s := s) dead (letterFor?_of_none fun raw mem =>
      absent _ (dead ▸ List.mem_map_of_mem mem))
    exact ⟨answers_replay_none taken, answers_discard taken⟩

/-- With an item that is no text, no letter is found. -/
theorem refuses_finding (unread : ¬ Textual w.dead) (id : String) :
    Refuses s w (.replay id) mistyped w ∧ Refuses s w (.discard id) mistyped w := by
  have reply : (w.perform s (.letters (-1))).1 = .ok (.list (w.dead.map .bulk)) := by
    simp only [perform, upTo_all]
  have failed : Fails s w (Calls.takeLetter id) mistyped w :=
    (fails_read reply (texts?_of_not_textual unread)).bind _
  exact ⟨fun _ => failed.bind _, fun _ => failed.bind _⟩

theorem finds_iff (s : Settings) (w : Server) (id : String) : Finds s w id ↔ Textual w.dead := by
  refine ⟨fun finds => Classical.byContradiction fun unread => ?_, fun h => finds_of_textual h id⟩
  obtain ⟨refused, -⟩ := refuses_finding (s := s) unread id
  have refused := refused 0
  cases found : w.dead.find? (isFor id) with
  | none =>
    have absent : ∀ item ∈ w.dead, isFor id item = false := fun item mem =>
      Bool.eq_false_iff.mpr (List.find?_eq_none.mp found item mem)
    rw [(finds.none absent).1 0] at refused
    cases refused
  | some item =>
    obtain ⟨itself, before, after, dead, others⟩ := List.find?_eq_some_iff_append.mp found
    have others : ∀ other ∈ before, isFor id other = false := fun other mem =>
      Bool.not_eq_true' _ ▸ others other mem
    rw [isFor] at itself
    cases read : letterOf? item with
    | none =>
      rw [read] at itself
      cases itself
    | some l =>
      rw [read] at itself
      rw [(finds.first before item after l dead read (beq_iff_eq.mp itself) others).1 0] at refused
      cases refused

/-- Whatever the dead list holds: the first letters that can be read are listed exactly if all
items of the page are texts, and all of them letters unless no letter is left beyond the page; and
the first letter for a task is found exactly if all items of the list are texts. Otherwise the call
fails and leaves the list as it is. -/
theorem letters_shown_iff (s : Settings) (w : Server) (limit : Nat) (id : String) :
    (ListsFirst s w limit ↔ Textual (w.dead.take (pageLength limit)) ∧
      (limit < 2 ^ 63 ∧ (∀ item ∈ w.dead.take limit, (letterOf? item).isSome) ∨
        ∀ item ∈ w.dead.drop (pageLength limit), letterOf? item = none)) ∧
    (Finds s w id ↔ Textual w.dead) ∧
    (Textual (w.dead.take (pageLength limit)) → Answers s w (.deadLetters limit)
      ((w.dead.take (pageLength limit)).filterMap letterOf?) w) ∧
    (¬ Textual (w.dead.take (pageLength limit)) → Refuses s w (.deadLetters limit) mistyped w) ∧
    (¬ Textual w.dead →
      Refuses s w (.replay id) mistyped w ∧ Refuses s w (.discard id) mistyped w) :=
  ⟨listsFirst_iff s w limit, finds_iff s w id, answers_page, refuses_page,
    fun unread => refuses_finding unread id⟩

private def groatText : String :=
  "[[\"execute\",\"groat\",\x7b\x7d,[],3,\"1970-01-01T00:00:00Z\",1],\"\",\"1970-01-01T00:00:00Z\"]"

private def clerk : Settings := { consumer := "clerk" }

private def chest (items : List (List UInt8)) : Server := { dead := items, clock := .epoch }

/-- A letter behind an item that is no text. -/
private def stained : Server := chest [[0xFF], Text.Utf8.bytes groatText]

/-- A letter behind a text that is none. -/
private def dusty : Server := chest [Text.Utf8.bytes "scrap", Text.Utf8.bytes groatText]

/-- An item that is no text hides a letter behind it. -/
theorem letters_hidden_by_stain : ¬ ∀ (s : Settings) (w : Server) (limit : Nat) (id : String),
    ListsFirst s w limit ∧ Finds s w id := by
  intro claim
  obtain ⟨lists, -⟩ := claim clerk stained 10 "groat"
  exact absurd ((listsFirst_iff _ _ _).mp lists).1 (by decide +kernel)

/-- A text that is no letter takes the place of the letter behind it, and of no other. -/
theorem letters_show_groat :
    ¬ ListsFirst clerk dusty 1 ∧ ListsFirst clerk dusty 2 ∧ Finds clerk dusty "groat" ∧
      Refuses clerk stained (.deadLetters 10) mistyped stained := by
  obtain ⟨one, finds, -⟩ := letters_shown_iff clerk dusty 1 "groat"
  obtain ⟨two, -⟩ := letters_shown_iff clerk dusty 2 "groat"
  obtain ⟨-, -, -, refuses, -⟩ := letters_shown_iff clerk stained 10 "groat"
  refine ⟨fun lists => absurd (one.mp lists).2 (by decide +kernel), two.mpr ?_, finds.mpr ?_,
    refuses ?_⟩
  · exact ⟨by decide +kernel, .inr (by decide +kernel)⟩
  · decide +kernel
  · decide +kernel

end Broker

end ClaimQueue
