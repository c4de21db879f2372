import Mathlib.Data.List.Permutation
import Mathlib.Data.List.Induction
import Visibility.Proofs.Cache

/-!
# Which conditions the cache holds

After requests for texts, the cache holds the compiled conditions of the texts that were requested
most recently.  Only texts that compile count; a text that does not compile leaves the conditions
and their order as they are.

* `recent` — the texts of a history that compile, each once, the last requested first
* `Cache.after`, `Cache.sources` — the cache after a history, and the texts that it holds
* `request_sources` — one request moves its text to the front and drops what is beyond the capacity
* `Cache.Recorded` — the invariant of a history: its recent texts are held, requests are counted,
  and the serial numbers so far are below the count of misses
* `serial_eq_iff` — two requests give one object if no gap between requests of its text was too long
* `after_recent` — all of this for any history
-/

namespace Visibility

/-! ## §1 Recent texts -/

/-- Whether a text is that of a condition. -/
def compiles (source : String) : Bool :=
  (Condition.compile source).isOk

/-- The texts of a history that compile, each once and the most recently requested first. -/
def recent (history : List String) : List String :=
  (history.reverse.filter compiles).eraseDups

theorem compiles_iff {source : String} :
    compiles source = true ↔ ∃ c, Condition.compile source = .ok c := by
  unfold compiles
  cases Condition.compile source <;> simp [Except.isOk, Except.toBool]

theorem compiles_eq_false_iff {source : String} :
    compiles source = false ↔ ∃ cause, Condition.compile source = .error cause := by
  unfold compiles
  cases Condition.compile source <;> simp [Except.isOk, Except.toBool]

/-- Dropping one text from a list before or after its repetitions makes no difference. -/
theorem eraseDups_filter_ne (a : String) (l : List String) :
    (l.filter fun b => !b == a).eraseDups = l.eraseDups.erase a := by
  -- The recursion is on lists without the first text, which is why the length decreases.
  match l with
  | [] => rfl
  | b :: l =>
    by_cases same : b = a
    · subst same
      simp [List.eraseDups_cons]
    · have shorter : (l.filter fun c => !c == b).length ≤ l.length := List.length_filter_le _ l
      have others := eraseDups_filter_ne a (l.filter fun c => !c == b)
      rw [List.eraseDups_cons, List.erase_cons_tail (by simpa using same), ← others]
      rw [List.filter_cons_of_pos (by simpa using same), List.eraseDups_cons, List.filter_filter,
        List.filter_filter]
      simp only [Bool.and_comm]
termination_by l.length

theorem recent_append_of_compiles {history : List String} {source : String}
    (compiled : compiles source = true) :
    recent (history ++ [source]) = source :: (recent history).erase source := by
  unfold recent
  rw [List.reverse_append, List.reverse_singleton, List.singleton_append,
    List.filter_cons_of_pos compiled, List.eraseDups_cons, eraseDups_filter_ne]

theorem recent_append_of_not_compiles {history : List String} {source : String}
    (refused : compiles source = false) : recent (history ++ [source]) = recent history := by
  unfold recent
  rw [List.reverse_append, List.reverse_singleton, List.singleton_append,
    List.filter_cons_of_neg (by simp [refused])]

/-- Before a text stand the texts that were requested after it. -/
theorem recent_append_cons (history : List String) {gap : List String} {source : String}
    (compiled : compiles source = true) (absent : source ∉ gap) :
    ∃ older, recent (history ++ source :: gap) = recent gap ++ source :: older := by
  have others : source ∉ gap.reverse.filter compiles := by simp [absent]
  unfold recent
  rw [List.reverse_append, List.reverse_cons, List.append_assoc, List.singleton_append,
    List.filter_append, List.filter_cons_of_pos compiled, List.eraseDups_append,
    List.cons_removeAll, if_pos (by simpa using others), List.eraseDups_cons]
  exact ⟨_, rfl⟩

theorem not_mem_recent {gap : List String} {source : String} (absent : source ∉ gap) :
    source ∉ recent gap := by
  simp [recent, absent]

theorem take_erase_take (n : Nat) (a : String) (l : List String) :
    ((l.take (n + 1)).erase a).take n = (l.erase a).take n := by
  induction l generalizing n with
  | nil => rfl
  | cons b l ih =>
    rw [List.take_succ_cons]
    by_cases same : b = a
    · subst same
      rw [List.erase_cons_head, List.erase_cons_head, List.take_take, Nat.min_self]
    · rw [List.erase_cons_tail (by simpa using same), List.erase_cons_tail (by simpa using same)]
      cases n with
      | zero => rfl
      | succ n => rw [List.take_succ_cons, List.take_succ_cons, ih]

/-! ## §2 Single requests -/

namespace Cache

/-- The texts whose conditions a cache holds, the most recently requested first. -/
def sources (cache : Cache) : List String :=
  cache.entries.map (·.condition.source)

/-- The entry for a text. -/
def held? (cache : Cache) (source : String) : Option CompiledCondition :=
  cache.entries.find? (isFor source)

variable {cache : Cache} {source other : String} {entry : CompiledCondition}

theorem held?_eq_none_iff : cache.held? source = none ↔ source ∉ cache.sources := by
  simp [held?, sources, isFor]

theorem source_of_held? (found : cache.held? source = some entry) :
    entry.condition.source = source := by
  have holds : isFor source entry = true := List.find?_some found
  exact eq_of_beq holds

theorem mem_of_held? (found : cache.held? source = some entry) : entry ∈ cache.entries :=
  List.mem_of_find?_eq_some found

theorem mem_sources_of_held? (found : cache.held? source = some entry) : source ∈ cache.sources :=
  List.mem_map.mpr ⟨entry, mem_of_held? found, source_of_held? found⟩

/-- What a cached text gives, and the cache after it. -/
theorem request_of_held? (found : cache.held? source = some entry) :
    cache.request source =
      (.ok entry,
        ⟨entry :: cache.entries.eraseP (isFor source), cache.hits + 1, cache.misses⟩) := by
  rw [held?] at found
  simp only [request, found]

/-- What a text gives that is not cached and compiles. -/
theorem request_of_compiled {c : Condition} (absent : cache.held? source = none)
    (compiled : Condition.compile source = .ok c) :
    cache.request source =
      (.ok ⟨c, cache.misses⟩,
        ⟨(⟨c, cache.misses⟩ :: cache.entries).take capacity, cache.hits, cache.misses + 1⟩) := by
  rw [held?] at absent
  simp only [request, absent, compiled]

/-- What a text gives that is not cached and does not compile. -/
theorem request_of_refused {cause : SyntaxError} (absent : cache.held? source = none)
    (refused : Condition.compile source = .error cause) :
    cache.request source = (.error cause, { cache with misses := cache.misses + 1 }) := by
  rw [held?] at absent
  simp only [request, absent, refused]

theorem Faithful.compiles_of_mem (h : cache.Faithful) (mem : source ∈ cache.sources) :
    compiles source = true := by
  obtain ⟨entry, held, rfl⟩ := List.mem_map.mp mem
  exact compiles_iff.mpr ⟨_, h entry held⟩

/-- A text that does not compile is a miss, and the conditions stay as they are. -/
theorem Faithful.request_of_refused {cause : SyntaxError} (h : cache.Faithful)
    (refused : Condition.compile source = .error cause) :
    cache.request source = (.error cause, { cache with misses := cache.misses + 1 }) := by
  refine Cache.request_of_refused (held?_eq_none_iff.mpr fun mem => ?_) refused
  have compiled := h.compiles_of_mem mem
  rw [compiles_eq_false_iff.mpr ⟨cause, refused⟩] at compiled
  cases compiled

theorem sources_eraseP (source : String) (entries : List CompiledCondition) :
    (entries.eraseP (isFor source)).map (·.condition.source) =
      (entries.map (·.condition.source)).erase source := by
  have same : isFor source = (fun text => source == text) ∘ (·.condition.source) := by
    funext entry
    exact Bool.beq_comm
  rw [List.erase_eq_eraseP, List.eraseP_map, ← same]

/-- A request for a text that compiles puts it first and keeps the others in order, as far as the
capacity goes. -/
theorem request_sources (within : cache.entries.length ≤ capacity)
    (compiled : compiles source = true) :
    (cache.request source).2.sources =
      (source :: cache.sources.erase source).take capacity := by
  cases found : cache.held? source with
  | some entry =>
    have mem : source ∈ cache.sources := mem_sources_of_held? found
    -- A text that is held moves to the front, and nothing has to go for it.
    have fits : (source :: cache.sources.erase source).length ≤ capacity := by
      rw [List.length_cons, List.length_erase_of_mem mem,
        Nat.sub_add_cancel (List.length_pos_of_mem mem)]
      rwa [sources, List.length_map]
    rw [request_of_held? found, List.take_of_length_le fits]
    simp only [sources, List.map_cons, sources_eraseP, source_of_held? found]
  | none =>
    obtain ⟨c, compiled⟩ := compiles_iff.mp compiled
    have absent := held?_eq_none_iff.mp found
    rw [request_of_compiled found compiled, List.erase_of_not_mem absent]
    simp only [sources, List.map_take, List.map_cons, source_of_compile compiled]

/-- A text is looked for in the cache, and found or counted as missing. -/
theorem request_counts (cache : Cache) (source : String) :
    let after := (cache.request source).2
    if source ∈ cache.sources then after.hits = cache.hits + 1 ∧ after.misses = cache.misses
    else after.hits = cache.hits ∧ after.misses = cache.misses + 1 := by
  intro after
  cases found : cache.held? source with
  | some entry =>
    have mem : source ∈ cache.sources := mem_sources_of_held? found
    simp [after, if_pos mem, request_of_held? found]
  | none =>
    rw [if_neg (held?_eq_none_iff.mp found)]
    cases compiled : Condition.compile source with
    | error cause => simp [after, request_of_refused found compiled]
    | ok c => simp [after, request_of_compiled found compiled]

/-- The entry that a request gives is the one for its text afterwards. -/
theorem held?_of_request (given : (cache.request source).1 = .ok entry) :
    (cache.request source).2.held? source = some entry := by
  cases found : cache.held? source with
  | some entry' =>
    rw [request_of_held? found] at given ⊢
    cases given
    exact List.find?_cons_of_pos (List.find?_some found)
  | none =>
    cases compiled : Condition.compile source with
    | error cause =>
      rw [request_of_refused found compiled] at given
      cases given
    | ok c =>
      rw [request_of_compiled found compiled] at given ⊢
      cases given
      refine List.find?_cons_of_pos ?_
      simp [isFor, source_of_compile compiled]

/-- Erasing what is not looked for changes nothing for the search. -/
theorem find?_eraseP {α : Type} {p q : α → Bool} (apart : ∀ a, q a = true → p a = false)
    (l : List α) : (l.eraseP q).find? p = l.find? p := by
  induction l with
  | nil => rfl
  | cons a l ih =>
    cases erased : q a with
    | true => rw [List.eraseP_cons_of_pos erased, List.find?_cons_of_neg (by simp [apart a erased])]
    | false => rw [List.eraseP_cons_of_neg (by simp [erased]), List.find?_cons, List.find?_cons, ih]

/-- Requests for other texts may drop an entry but put no new one in its place. -/
theorem held?_of_request_other (ne : other ≠ source)
    (found : (cache.request other).2.held? source = some entry) :
    cache.held? source = some entry := by
  have notFor {e : CompiledCondition} (same : e.condition.source = other) :
      isFor source e = false := by
    simp [isFor, same, ne]
  cases held : cache.held? other with
  | some first =>
    rw [request_of_held? held] at found
    -- The entry in front is for the other text, and the rest was there before.
    have skipped := notFor (source_of_held? held)
    rw [held?, List.find?_cons_of_neg (by simp [skipped])] at found
    have apart : ∀ e, isFor other e = true → isFor source e = false :=
      fun e forOther => notFor (eq_of_beq forOther)
    rwa [find?_eraseP apart] at found
  | none =>
    cases compiled : Condition.compile other with
    | error cause =>
      rw [request_of_refused held compiled] at found
      exact found
    | ok c =>
      rw [request_of_compiled held compiled] at found
      -- Entries may have been dropped at the end, but what is found among the rest was found
      -- before.
      have prefixed := List.IsPrefix.find?_eq_some (List.take_prefix _ _) found
      have skipped : isFor source ⟨c, cache.misses⟩ = false := notFor (source_of_compile compiled)
      rwa [List.find?_cons_of_neg (by simp [skipped])] at prefixed

/-! ## §3 Histories -/

/-- The cache after requests for the texts of a history, in order. -/
def after (history : List String) : Cache :=
  history.foldl (fun cache source => (cache.request source).2) empty

theorem after_concat (history : List String) (source : String) :
    after (history ++ [source]) = ((after history).request source).2 := by
  rw [after, List.foldl_append]
  rfl

/-- What holds of the cache after a history. -/
structure Recorded (history : List String) (cache : Cache) : Prop where
  faithful : cache.Faithful
  sources : cache.sources = (recent history).take capacity
  counted : cache.hits + cache.misses = history.length
  /-- Each serial number is the count of misses before an earlier request. -/
  numbered : ∀ entry ∈ cache.entries, entry.serial < cache.misses

variable {history gap : List String}

theorem Recorded.within (h : Recorded history cache) : cache.entries.length ≤ capacity := by
  have length : cache.sources.length = cache.entries.length := List.length_map ..
  rw [← length, h.sources, List.length_take]
  exact Nat.min_le_left ..

theorem recorded_empty : Recorded [] empty :=
  ⟨faithful_empty, rfl, rfl, fun _ mem => nomatch mem⟩

theorem misses_le_request (cache : Cache) (source : String) :
    cache.misses ≤ (cache.request source).2.misses := by
  have counts := request_counts cache source
  dsimp only at counts
  split at counts <;> omega

/-- The entries after a request are those before it and the one that it gives. -/
theorem numbered_request (numbered : ∀ entry ∈ cache.entries, entry.serial < cache.misses)
    (source : String) :
    ∀ entry ∈ (cache.request source).2.entries, entry.serial < (cache.request source).2.misses := by
  intro entry mem
  cases found : cache.held? source with
  | some first =>
    rw [request_of_held? found] at mem ⊢
    rcases List.mem_cons.mp mem with rfl | mem
    · exact numbered _ (mem_of_held? found)
    · exact numbered _ (List.mem_of_mem_eraseP mem)
  | none =>
    cases compiled : Condition.compile source with
    | error cause =>
      rw [request_of_refused found compiled] at mem ⊢
      exact Nat.lt_succ_of_lt (numbered _ mem)
    | ok c =>
      rw [request_of_compiled found compiled] at mem ⊢
      rcases List.mem_cons.mp (List.mem_of_mem_take mem) with rfl | mem
      · -- The new entry has the number of the miss that made it.
        exact Nat.lt_succ_self _
      · exact Nat.lt_succ_of_lt (numbered _ mem)

/-- One more request is one more text of the history. -/
theorem Recorded.request (h : Recorded history cache) (source : String) :
    Recorded (history ++ [source]) (cache.request source).2 where
  faithful := (request_faithful h.faithful source).2
  sources := by
    cases compiled : compiles source with
    | true =>
      -- Erasing a text makes room for it, whether or not it was among those that are held.
      have pos : capacity = 511 + 1 := rfl
      rw [request_sources h.within compiled, recent_append_of_compiles compiled, h.sources, pos,
        List.take_succ_cons, List.take_succ_cons, take_erase_take]
    | false =>
      obtain ⟨cause, refused⟩ := compiles_eq_false_iff.mp compiled
      rw [h.faithful.request_of_refused refused, recent_append_of_not_compiles compiled]
      exact h.sources
  counted := by
    have counts := request_counts cache source
    have counted := h.counted
    rw [List.length_append, List.length_singleton]
    dsimp only at counts
    split at counts <;> omega
  numbered := numbered_request h.numbered source

theorem recorded_after (history : List String) : Recorded history (after history) := by
  induction history using List.reverseRecOn with
  | nil => exact recorded_empty
  | append_singleton history source ih =>
    rw [after_concat]
    exact ih.request source

theorem misses_le_after (history gap : List String) :
    (after history).misses ≤ (after (history ++ gap)).misses := by
  induction gap using List.reverseRecOn with
  | nil => exact Nat.le_of_eq (by rw [List.append_nil])
  | append_singleton gap other ih =>
    rw [← List.append_assoc, after_concat]
    exact Nat.le_trans ih (misses_le_request _ other)

/-! ## §4 Objects that are given again -/

/-- An entry that is there after requests for other texts was there before them. -/
theorem held?_of_gap (absent : source ∉ gap)
    (found : (after (history ++ gap)).held? source = some entry) :
    (after history).held? source = some entry := by
  induction gap using List.reverseRecOn with
  | nil => rwa [List.append_nil] at found
  | append_singleton gap other ih =>
    simp only [List.mem_append, List.mem_singleton, not_or] at absent
    rw [← List.append_assoc, after_concat] at found
    exact ih absent.1 (held?_of_request_other (Ne.symm absent.2) found)

/-- After requests for other texts, a text is still held if they were fewer than the capacity. -/
theorem mem_sources_of_gap (history : List String) (compiled : compiles source = true)
    (absent : source ∉ gap) :
    source ∈ (after (history ++ source :: gap)).sources ↔ (recent gap).length < capacity := by
  -- The texts of the gap stand before the text, so it is held if they leave room for one more.
  obtain ⟨older, split⟩ := recent_append_cons history compiled absent
  rw [(recorded_after _).sources, split]
  constructor
  · intro mem
    by_contra full
    rw [List.take_append_of_le_length (Nat.not_lt.mp full)] at mem
    exact not_mem_recent absent (List.mem_of_mem_take mem)
  · intro room
    obtain ⟨n, eq⟩ : ∃ n, capacity = (recent gap).length + (n + 1) :=
      ⟨capacity - (recent gap).length - 1, by omega⟩
    rw [eq, List.take_length_add_append, List.take_succ_cons]
    simp

/-- Two requests for a text with none for it in between. -/
theorem serial_of_gap {e₁ e₂ : CompiledCondition} (absent : source ∉ gap)
    (first : ((after history).request source).1 = .ok e₁)
    (second : ((after (history ++ source :: gap)).request source).1 = .ok e₂) :
    e₁.serial ≤ e₂.serial ∧ (e₁.serial = e₂.serial ↔ (recent gap).length < capacity) := by
  have split : history ++ source :: gap = (history ++ [source]) ++ gap := by simp
  have held : (after (history ++ [source])).held? source = some e₁ := by
    rw [after_concat]
    exact held?_of_request first
  have compiled : compiles source = true :=
    (recorded_after (history ++ [source])).faithful.compiles_of_mem (mem_sources_of_held? held)
  rw [← mem_sources_of_gap history compiled absent]
  cases found : (after (history ++ source :: gap)).held? source with
  | some entry =>
    rw [request_of_held? found] at second
    cases second
    have kept : (after (history ++ [source])).held? source = some e₂ :=
      held?_of_gap absent (split ▸ found)
    obtain rfl : e₁ = e₂ := Option.some.inj (held.symm.trans kept)
    have mem : source ∈ (after (history ++ source :: gap)).sources := mem_sources_of_held? found
    exact ⟨Nat.le_refl _, by simp [mem]⟩
  | none =>
    obtain ⟨c, compiled⟩ := compiles_iff.mp compiled
    rw [request_of_compiled found compiled] at second
    cases second
    -- The new object has a number of its own, above all that were given before.
    have below : e₁.serial < (after (history ++ source :: gap)).misses := by
      have given := (recorded_after (history ++ [source])).numbered _ (mem_of_held? held)
      have more := misses_le_after (history ++ [source]) gap
      rw [← split] at more
      exact Nat.lt_of_lt_of_le given more
    have gone := held?_eq_none_iff.mp found
    exact ⟨Nat.le_of_lt below, by simp [gone, Nat.ne_of_lt below]⟩

/-- If one request for a text gives an object, every request for it does. -/
theorem exists_given {e₁ : CompiledCondition} (later : List String)
    (first : ((after history).request source).1 = .ok e₁) :
    ∃ e, ((after later).request source).1 = .ok e := by
  have same₁ := (request_faithful (recorded_after history).faithful source).1
  have same := (request_faithful (recorded_after later).faithful source).1
  rw [first, ← same] at same₁
  cases given : ((after later).request source).1 with
  | error cause =>
    rw [given] at same₁
    cases same₁
  | ok e => exact ⟨e, rfl⟩

/-- Two requests for a text give one object exactly if, between any two requests for it that follow
each other, fewer texts than the capacity were requested.  The induction is on what was requested
after the gap so far. -/
theorem serial_eq_iff {e₁ e₂ : CompiledCondition} (between : List String) (absent : source ∉ gap)
    (first : ((after history).request source).1 = .ok e₁)
    (second : ((after (history ++ source :: (gap ++ between))).request source).1 = .ok e₂) :
    e₁.serial ≤ e₂.serial ∧ (e₁.serial = e₂.serial ↔
      ∀ part ∈ (gap ++ between).splitOn source, (recent part).length < capacity) := by
  induction between generalizing history gap e₁ with
  | nil =>
    rw [List.append_nil] at second ⊢
    rw [List.splitOn_eq_singleton absent, List.forall_mem_singleton]
    exact serial_of_gap absent first second
  | cons other between ih =>
    by_cases same : other = source
    · subst same
      -- The gap ends with a request that gives an object in the middle.
      obtain ⟨e, middle⟩ := exists_given (history ++ other :: gap) first
      have split : history ++ other :: (gap ++ other :: between) =
          (history ++ other :: gap) ++ other :: ([] ++ between) := by simp
      rw [split] at second
      have ⟨le₁, iff₁⟩ := serial_of_gap absent first middle
      have ⟨le₂, iff₂⟩ := ih List.not_mem_nil middle second
      rw [List.nil_append] at iff₂
      rw [List.splitOn_append_cons_self_of_not_mem absent, List.forall_mem_cons, ← iff₁, ← iff₂]
      omega
    · have longer : gap ++ other :: between = (gap ++ [other]) ++ between := by simp
      rw [longer] at second ⊢
      refine ih ?_ first second
      simpa [absent] using Ne.symm same

/-! ## §5 Any history -/

/-- **The cache holds what was requested most recently.**  After any history its texts are the
recent ones, up to the capacity; requests are counted as hits and misses, and the next one is a hit
exactly if its text is held; a text that does not compile is a miss and changes nothing else; and
two requests for a text that compiles give one object exactly if no gap between requests for it has
as many other texts as the capacity. -/
theorem after_recent (history : List String) (source : String) :
    (after history).sources = (recent history).take capacity ∧
    (after history).entries.length = min capacity (recent history).length ∧
    (after history).hits + (after history).misses = history.length ∧
    (let next := ((after history).request source).2
     if source ∈ (recent history).take capacity
     then next.hits = (after history).hits + 1 ∧ next.misses = (after history).misses
     else next.hits = (after history).hits ∧ next.misses = (after history).misses + 1) ∧
    (∀ cause, Condition.compile source = .error cause →
      (after history).request source =
        (.error cause, { after history with misses := (after history).misses + 1 })) ∧
    ∀ between e₁ e₂, ((after history).request source).1 = .ok e₁ →
      ((after (history ++ source :: between)).request source).1 = .ok e₂ →
      (e₁.serial = e₂.serial ↔
        ∀ gap ∈ between.splitOn source, (recent gap).length < capacity) := by
  have recorded : Recorded history (after history) := recorded_after history
  refine ⟨recorded.sources, ?_, recorded.counted, ?_, fun cause refused => ?_,
    fun between e₁ e₂ first second => ?_⟩
  · have length : (after history).sources.length = (after history).entries.length :=
      List.length_map ..
    rw [← length, recorded.sources, List.length_take]
  · rw [← recorded.sources]
    exact request_counts (after history) source
  · exact recorded.faithful.request_of_refused refused
  · exact (serial_eq_iff between List.not_mem_nil first second).2

/-- An object is given again after a request for another text, for the text itself, and for a text
that does not compile. -/
theorem after_recent_reused :
    ((after ["a", "]"]).request "b").1 = .ok ⟨⟨"b", .name "b"⟩, 2⟩ ∧
      ((after ["a", "]", "b", "a", "b", "["]).request "b").1 = .ok ⟨⟨"b", .name "b"⟩, 2⟩ ∧
      ∀ gap ∈ ["a", "b", "["].splitOn "b", (recent gap).length < capacity := by
  have given : ((after ["a", "]"]).request "b").1 = .ok ⟨⟨"b", .name "b"⟩, 2⟩ := by cbv
  have again : ((after ["a", "]", "b", "a", "b", "["]).request "b").1 =
      .ok ⟨⟨"b", .name "b"⟩, 2⟩ := by cbv
  obtain ⟨_, _, _, _, _, objects⟩ := after_recent ["a", "]"] "b"
  exact ⟨given, again, (objects ["a", "b", "["] _ _ given again).mp rfl⟩

end Cache

end Visibility
