import Mathlib.Data.List.Chain
import Mathlib.Data.List.GetD
import PiJade.Slip39

/-!
The words of SLIP39 (`main/slip39_english.c`) and the reading of a text. The list is ascending,
so the search finds an entry in whatever case it is written; a text writes a list of words when
blanks stand between them, and what is looked up is exactly that list.
-/
namespace PiJade.Slip39
set_option linter.unusedSimpArgs false

def ENGLISH : List String :=
  ["academic", "acid", "acne", "acquire", "acrobat", "activity", "actress", "adapt", "adequate", "adjust", "admit",
   "adorn", "adult", "advance", "advocate", "afraid", "again", "agency", "agree", "aide", "aircraft", "airline",
   "airport", "ajar", "alarm", "album", "alcohol", "alien", "alive", "alpha", "already", "alto", "aluminum", "always",
   "amazing", "ambition", "amount", "amuse", "analysis", "anatomy", "ancestor", "ancient", "angel", "angry", "animal",
   "answer", "antenna", "anxiety", "apart", "aquatic", "arcade", "arena", "argue", "armed", "artist", "artwork",
   "aspect", "auction", "august", "aunt", "average", "aviation", "avoid", "award", "away", "axis", "axle", "beam",
   "beard", "beaver", "become", "bedroom", "behavior", "being", "believe", "belong", "benefit", "best", "beyond", "bike",
   "biology", "birthday", "bishop", "black", "blanket", "blessing", "blimp", "blind", "blue", "body", "bolt", "boring",
   "born", "both", "boundary", "bracelet", "branch", "brave", "breathe", "briefing", "broken", "brother", "browser",
   "bucket", "budget", "building", "bulb", "bulge", "bumpy", "bundle", "burden", "burning", "busy", "buyer", "cage",
   "calcium", "camera", "campus", "canyon", "capacity", "capital", "capture", "carbon", "cards", "careful", "cargo",
   "carpet", "carve", "category", "cause", "ceiling", "center", "ceramic", "champion", "change", "charity", "check",
   "chemical", "chest", "chew", "chubby", "cinema", "civil", "class", "clay", "cleanup", "client", "climate", "clinic",
   "clock", "clogs", "closet", "clothes", "club", "cluster", "coal", "coastal", "coding", "column", "company", "corner",
   "costume", "counter", "course", "cover", "cowboy", "cradle", "craft", "crazy", "credit", "cricket", "criminal",
   "crisis", "critical", "crowd", "crucial", "crunch", "crush", "crystal", "cubic", "cultural", "curious", "curly",
   "custody", "cylinder", "daisy", "damage", "dance", "darkness", "database", "daughter", "deadline", "deal", "debris",
   "debut", "decent", "decision", "declare", "decorate", "decrease", "deliver", "demand", "density", "deny", "depart",
   "depend", "depict", "deploy", "describe", "desert", "desire", "desktop", "destroy", "detailed", "detect", "device",
   "devote", "diagnose", "dictate", "diet", "dilemma", "diminish", "dining", "diploma", "disaster", "discuss", "disease",
   "dish", "dismiss", "display", "distance", "dive", "divorce", "document", "domain", "domestic", "dominant", "dough",
   "downtown", "dragon", "dramatic", "dream", "dress", "drift", "drink", "drove", "drug", "dryer", "duckling", "duke",
   "duration", "dwarf", "dynamic", "early", "earth", "easel", "easy", "echo", "eclipse", "ecology", "edge", "editor",
   "educate", "either", "elbow", "elder", "election", "elegant", "element", "elephant", "elevator", "elite", "else",
   "email", "emerald", "emission", "emperor", "emphasis", "employer", "empty", "ending", "endless", "endorse", "enemy",
   "energy", "enforce", "engage", "enjoy", "enlarge", "entrance", "envelope", "envy", "epidemic", "episode", "equation",
   "equip", "eraser", "erode", "escape", "estate", "estimate", "evaluate", "evening", "evidence", "evil", "evoke",
   "exact", "example", "exceed", "exchange", "exclude", "excuse", "execute", "exercise", "exhaust", "exotic", "expand",
   "expect", "explain", "express", "extend", "extra", "eyebrow", "facility", "fact", "failure", "faint", "fake", "false",
   "family", "famous", "fancy", "fangs", "fantasy", "fatal", "fatigue", "favorite", "fawn", "fiber", "fiction", "filter",
   "finance", "findings", "finger", "firefly", "firm", "fiscal", "fishing", "fitness", "flame", "flash", "flavor",
   "flea", "flexible", "flip", "float", "floral", "fluff", "focus", "forbid", "force", "forecast", "forget", "formal",
   "fortune", "forward", "founder", "fraction", "fragment", "frequent", "freshman", "friar", "fridge", "friendly",
   "frost", "froth", "frozen", "fumes", "funding", "furl", "fused", "galaxy", "game", "garbage", "garden", "garlic",
   "gasoline", "gather", "general", "genius", "genre", "genuine", "geology", "gesture", "glad", "glance", "glasses",
   "glen", "glimpse", "goat", "golden", "graduate", "grant", "grasp", "gravity", "gray", "greatest", "grief", "grill",
   "grin", "grocery", "gross", "group", "grownup", "grumpy", "guard", "guest", "guilt", "guitar", "gums", "hairy",
   "hamster", "hand", "hanger", "harvest", "have", "havoc", "hawk", "hazard", "headset", "health", "hearing", "heat",
   "helpful", "herald", "herd", "hesitate", "hobo", "holiday", "holy", "home", "hormone", "hospital", "hour", "huge",
   "human", "humidity", "hunting", "husband", "hush", "husky", "hybrid", "idea", "identify", "idle", "image", "impact",
   "imply", "improve", "impulse", "include", "income", "increase", "index", "indicate", "industry", "infant", "inform",
   "inherit", "injury", "inmate", "insect", "inside", "install", "intend", "intimate", "invasion", "involve", "iris",
   "island", "isolate", "item", "ivory", "jacket", "jerky", "jewelry", "join", "judicial", "juice", "jump", "junction",
   "junior", "junk", "jury", "justice", "kernel", "keyboard", "kidney", "kind", "kitchen", "knife", "knit", "laden",
   "ladle", "ladybug", "lair", "lamp", "language", "large", "laser", "laundry", "lawsuit", "leader", "leaf", "learn",
   "leaves", "lecture", "legal", "legend", "legs", "lend", "length", "level", "liberty", "library", "license", "lift",
   "likely", "lilac", "lily", "lips", "liquid", "listen", "literary", "living", "lizard", "loan", "lobe", "location",
   "losing", "loud", "loyalty", "luck", "lunar", "lunch", "lungs", "luxury", "lying", "lyrics", "machine", "magazine",
   "maiden", "mailman", "main", "makeup", "making", "mama", "manager", "mandate", "mansion", "manual", "marathon",
   "march", "market", "marvel", "mason", "material", "math", "maximum", "mayor", "meaning", "medal", "medical", "member",
   "memory", "mental", "merchant", "merit", "method", "metric", "midst", "mild", "military", "mineral", "minister",
   "miracle", "mixed", "mixture", "mobile", "modern", "modify", "moisture", "moment", "morning", "mortgage", "mother",
   "mountain", "mouse", "move", "much", "mule", "multiple", "muscle", "museum", "music", "mustang", "nail", "national",
   "necklace", "negative", "nervous", "network", "news", "nuclear", "numb", "numerous", "nylon", "oasis", "obesity",
   "object", "observe", "obtain", "ocean", "often", "olympic", "omit", "oral", "orange", "orbit", "order", "ordinary",
   "organize", "ounce", "oven", "overall", "owner", "paces", "pacific", "package", "paid", "painting", "pajamas",
   "pancake", "pants", "papa", "paper", "parcel", "parking", "party", "patent", "patrol", "payment", "payroll",
   "peaceful", "peanut", "peasant", "pecan", "penalty", "pencil", "percent", "perfect", "permit", "petition", "phantom",
   "pharmacy", "photo", "phrase", "physics", "pickup", "picture", "piece", "pile", "pink", "pipeline", "pistol", "pitch",
   "plains", "plan", "plastic", "platform", "playoff", "pleasure", "plot", "plunge", "practice", "prayer", "preach",
   "predator", "pregnant", "premium", "prepare", "presence", "prevent", "priest", "primary", "priority", "prisoner",
   "privacy", "prize", "problem", "process", "profile", "program", "promise", "prospect", "provide", "prune", "public",
   "pulse", "pumps", "punish", "puny", "pupal", "purchase", "purple", "python", "quantity", "quarter", "quick", "quiet",
   "race", "racism", "radar", "railroad", "rainbow", "raisin", "random", "ranked", "rapids", "raspy", "reaction",
   "realize", "rebound", "rebuild", "recall", "receiver", "recover", "regret", "regular", "reject", "relate", "remember",
   "remind", "remove", "render", "repair", "repeat", "replace", "require", "rescue", "research", "resident", "response",
   "result", "retailer", "retreat", "reunion", "revenue", "review", "reward", "rhyme", "rhythm", "rich", "rival",
   "river", "robin", "rocky", "romantic", "romp", "roster", "round", "royal", "ruin", "ruler", "rumor", "sack", "safari",
   "salary", "salon", "salt", "satisfy", "satoshi", "saver", "says", "scandal", "scared", "scatter", "scene", "scholar",
   "science", "scout", "scramble", "screw", "script", "scroll", "seafood", "season", "secret", "security", "segment",
   "senior", "shadow", "shaft", "shame", "shaped", "sharp", "shelter", "sheriff", "short", "should", "shrimp",
   "sidewalk", "silent", "silver", "similar", "simple", "single", "sister", "skin", "skunk", "slap", "slavery", "sled",
   "slice", "slim", "slow", "slush", "smart", "smear", "smell", "smirk", "smith", "smoking", "smug", "snake", "snapshot",
   "sniff", "society", "software", "soldier", "solution", "soul", "source", "space", "spark", "speak", "species",
   "spelling", "spend", "spew", "spider", "spill", "spine", "spirit", "spit", "spray", "sprinkle", "square", "squeeze",
   "stadium", "staff", "standard", "starting", "station", "stay", "steady", "step", "stick", "stilt", "story",
   "strategy", "strike", "style", "subject", "submit", "sugar", "suitable", "sunlight", "superior", "surface",
   "surprise", "survive", "sweater", "swimming", "swing", "switch", "symbolic", "sympathy", "syndrome", "system",
   "tackle", "tactics", "tadpole", "talent", "task", "taste", "taught", "taxi", "teacher", "teammate", "teaspoon",
   "temple", "tenant", "tendency", "tension", "terminal", "testify", "texture", "thank", "that", "theater", "theory",
   "therapy", "thorn", "threaten", "thumb", "thunder", "ticket", "tidy", "timber", "timely", "ting", "tofu", "together",
   "tolerate", "total", "toxic", "tracks", "traffic", "training", "transfer", "trash", "traveler", "treat", "trend",
   "trial", "tricycle", "trip", "triumph", "trouble", "true", "trust", "twice", "twin", "type", "typical", "ugly",
   "ultimate", "umbrella", "uncover", "undergo", "unfair", "unfold", "unhappy", "union", "universe", "unkind", "unknown",
   "unusual", "unwrap", "upgrade", "upstairs", "username", "usher", "usual", "valid", "valuable", "vampire", "vanish",
   "various", "vegan", "velvet", "venture", "verdict", "verify", "very", "veteran", "vexed", "victim", "video", "view",
   "vintage", "violence", "viral", "visitor", "visual", "vitamins", "vocal", "voice", "volume", "voter", "voting",
   "walnut", "warmth", "warn", "watch", "wavy", "wealthy", "weapon", "webcam", "welcome", "welfare", "western", "width",
   "wildlife", "window", "wine", "wireless", "wisdom", "withdraw", "wits", "wolf", "woman", "work", "worthy", "wrap",
   "wrist", "writing", "wrote", "year", "yelp", "yield", "yoga", "zero"]

/-- The letters of a word; in memory a zero follows. -/
def wordBytes (word : String) : Bytes := word.toUTF8.data.toList

def SLIP39_WORDLIST (i : Nat) : Bytes := wordBytes (ENGLISH.getD i "")

theorem english_checked : ENGLISH.length = SLIP39_WORD_COUNT ∧
    ((ENGLISH.map wordBytes).map (List.take 4)).IsChain (· < ·) ∧
    (ENGLISH.map wordBytes).all (fun word => 4 ≤ word.length && word.all fun c => 97 ≤ c && c ≤ 122) = true := by
  decide +kernel

theorem english_count : ENGLISH.length = SLIP39_WORD_COUNT := english_checked.1

theorem wordlist_get {i : Nat} (listed : i < SLIP39_WORD_COUNT) :
    (ENGLISH.map wordBytes)[i]? = some (SLIP39_WORDLIST i) := by
  rw [← english_count] at listed
  rw [List.getElem?_map, SLIP39_WORDLIST, List.getD_eq_getElem?_getD, List.getElem?_eq_getElem listed]
  rfl

theorem wordlist_checked {i : Nat} (listed : i < SLIP39_WORD_COUNT) : 4 ≤ (SLIP39_WORDLIST i).length ∧
    ∀ c ∈ SLIP39_WORDLIST i, 97 ≤ c.toNat ∧ c.toNat ≤ 122 := by
  have all := List.all_eq_true.mp english_checked.2.2 _ (List.mem_of_getElem? (wordlist_get listed))
  rw [Bool.and_eq_true, decide_eq_true_eq] at all
  refine ⟨all.1, fun c mem => ?_⟩
  have letter := List.all_eq_true.mp all.2 c mem
  rw [Bool.and_eq_true, decide_eq_true_eq, decide_eq_true_eq] at letter
  exact ⟨UInt8.le_iff_toNat_le.mp letter.1, UInt8.le_iff_toNat_le.mp letter.2⟩

theorem wordlist_letter {i : Nat} (listed : i < SLIP39_WORD_COUNT) {c : UInt8} (mem : c ∈ SLIP39_WORDLIST i) :
    97 ≤ c.toNat ∧ c.toNat ≤ 122 := (wordlist_checked listed).2 c mem

theorem wordlist_no_nul {i : Nat} (listed : i < SLIP39_WORD_COUNT) : (0 : UInt8) ∉ SLIP39_WORDLIST i := by
  intro mem
  have letter := (wordlist_letter listed mem).1
  exact absurd letter (by decide)

theorem wordlist_ne_nil {i : Nat} (listed : i < SLIP39_WORD_COUNT) : SLIP39_WORDLIST i ≠ [] := by
  intro nothing
  have long := (wordlist_checked listed).1
  rw [nothing] at long
  cases long

/-- The first four letters already tell the words apart. -/
theorem take_wordlist_lt {i j : Nat} (order : i < j) (listed : j < SLIP39_WORD_COUNT) :
    (SLIP39_WORDLIST i).take 4 < (SLIP39_WORDLIST j).take 4 := by
  have pairs := List.isChain_iff_pairwise.mp english_checked.2.1
  have first := congrArg (Option.map (List.take 4)) (wordlist_get (Nat.lt_trans order listed))
  have second := congrArg (Option.map (List.take 4)) (wordlist_get listed)
  rw [← List.getElem?_map] at first second
  obtain ⟨i_inside, i_get⟩ := List.getElem?_eq_some_iff.mp first
  obtain ⟨j_inside, j_get⟩ := List.getElem?_eq_some_iff.mp second
  rw [← i_get, ← j_get]
  exact List.pairwise_iff_getElem.mp pairs i j i_inside j_inside order

theorem lt_of_take_lt : ∀ {n : Nat} {first second : Bytes}, first.take n < second.take n → first < second
  | 0, _, _, less => absurd less (List.lt_irrefl _)
  | _ + 1, _, [], less => absurd less (List.not_lt_nil _)
  | _ + 1, [], _ :: _, _ => List.nil_lt_cons _ _
  | n + 1, c :: first, d :: second, less => by
    rw [List.take_succ_cons, List.take_succ_cons, List.cons_lt_cons_iff] at less
    exact List.cons_lt_cons_iff.mpr (less.imp_right fun same => ⟨same.1, lt_of_take_lt same.2⟩)

theorem wordlist_lt {i j : Nat} (order : i < j) (listed : j < SLIP39_WORD_COUNT) : SLIP39_WORDLIST i < SLIP39_WORDLIST j :=
  lt_of_take_lt (take_wordlist_lt order listed)

/-! ### The search -/

/-- An entry and a word compare as in a dictionary, the word in small letters. -/
theorem wordlist_cmp_cases : ∀ (word entry : Bytes), (0 : UInt8) ∉ entry →
    (wordlist_cmp entry word = .lt ∧ entry < word.map lower) ∨
    (wordlist_cmp entry word = .eq ∧ entry = word.map lower) ∨
    (wordlist_cmp entry word = .gt ∧ word.map lower < entry)
  | [], [], _ => .inr (.inl ⟨rfl, rfl⟩)
  | [], e :: entry, no_nul => by
    have letter : e ≠ 0 := fun nul => no_nul (by simp [nul])
    exact .inr (.inr ⟨by simp [wordlist_cmp, letter], List.nil_lt_cons _ _⟩)
  | c :: word, [], _ => by
    -- A zero in the word is no end: the entry counts as the shorter one.
    refine .inl ⟨?_, List.nil_lt_cons _ _⟩
    rw [wordlist_cmp, List.headD_nil]
    by_cases nul : lower c = 0
    · rw [nul, if_neg (not_not_intro rfl), if_pos rfl]
    · rw [if_pos (Ne.symm nul), if_pos (UInt8.pos_iff_ne_zero.mpr nul)]
  | c :: word, e :: entry, no_nul => by
    have letter : e ≠ 0 := fun nul => no_nul (by simp [nul])
    simp only [wordlist_cmp, List.headD_cons, List.tail_cons, List.map_cons, List.cons_lt_cons_iff, List.cons.injEq, letter,
      if_false]
    by_cases same : e = lower c
    · have later := wordlist_cmp_cases word entry (fun mem => no_nul (List.mem_cons_of_mem _ mem))
      simp only [same, ne_eq, not_true_eq_false, if_false, true_and, or_true, UInt8.lt_irrefl, false_or]
      exact later
    · simp only [same, ne_eq, not_false_eq_true, if_true, false_and, or_false, Ne.symm same]
      by_cases below : e < lower c
      · exact .inl ⟨if_pos below, below⟩
      · refine .inr (.inr ⟨if_neg below, ?_⟩)
        exact UInt8.lt_of_le_of_ne (UInt8.not_lt.mp below) (Ne.symm same)

theorem search_sound (word : Bytes) {index : UInt16} :
    ∀ {rounds lo hi : Nat}, hi ≤ SLIP39_WORD_COUNT → search SLIP39_WORDLIST word rounds lo hi = some index →
      index.toNat < SLIP39_WORD_COUNT ∧ SLIP39_WORDLIST index.toNat = word.map lower
  | 0, _, _, _, found => by cases found
  | rounds + 1, lo, hi, inside, found => by
    rw [search] at found
    by_cases more : lo < hi
    · rw [if_pos more] at found
      have middle : lo + (hi - lo) / 2 < hi := by omega
      have listed : lo + (hi - lo) / 2 < SLIP39_WORD_COUNT := Nat.lt_of_lt_of_le middle inside
      rcases wordlist_cmp_cases word _ (wordlist_no_nul listed) with ⟨cmp, _⟩ | ⟨cmp, equal⟩ | ⟨cmp, _⟩
      · simp only [cmp] at found
        exact search_sound word inside found
      · simp only [cmp, Option.some.injEq] at found
        have value : index.toNat = lo + (hi - lo) / 2 := by
          rw [← found, UInt16.toNat_ofNat', Nat.mod_eq_of_lt (Nat.lt_trans listed (by decide))]
        rw [value]
        exact ⟨listed, equal⟩
      · simp only [cmp] at found
        exact search_sound word (Nat.le_of_lt (Nat.lt_of_lt_of_le middle inside)) found
    · rw [if_neg more] at found
      cases found

theorem search_complete (word : Bytes) {j : Nat} (entry : SLIP39_WORDLIST j = word.map lower) :
    ∀ {rounds lo hi : Nat}, hi ≤ SLIP39_WORD_COUNT → lo ≤ j → j < hi → hi - lo ≤ rounds →
      search SLIP39_WORDLIST word rounds lo hi = some (UInt16.ofNat j)
  | 0, lo, hi, _, above, below, enough => by omega
  | rounds + 1, lo, hi, inside, above, below, enough => by
    have middle : lo + (hi - lo) / 2 < hi := by omega
    have listed : lo + (hi - lo) / 2 < SLIP39_WORD_COUNT := Nat.lt_of_lt_of_le middle inside
    have j_listed : j < SLIP39_WORD_COUNT := Nat.lt_of_lt_of_le below inside
    rw [search, if_pos (Nat.lt_of_le_of_lt above below)]
    rcases wordlist_cmp_cases word _ (wordlist_no_nul listed) with ⟨cmp, order⟩ | ⟨cmp, equal⟩ | ⟨cmp, order⟩
    · simp only [cmp]
      refine search_complete word entry inside ?_ below (by omega)
      by_contra early
      rcases Nat.lt_or_eq_of_le (show j ≤ lo + (hi - lo) / 2 by omega) with less | same
      · exact List.lt_asymm order (entry ▸ wordlist_lt less listed)
      · rw [← same, entry] at order
        exact List.lt_irrefl _ order
    · simp only [cmp]
      rw [← entry] at equal
      rcases Nat.lt_trichotomy (lo + (hi - lo) / 2) j with less | same | more
      · exact absurd (equal ▸ wordlist_lt less j_listed) (List.lt_irrefl _)
      · rw [same]
      · exact absurd (equal ▸ wordlist_lt more listed) (List.lt_irrefl _)
    · simp only [cmp]
      refine search_complete word entry (Nat.le_of_lt (Nat.lt_of_lt_of_le middle inside)) above ?_ (by omega)
      by_contra late
      rcases Nat.lt_or_eq_of_le (show lo + (hi - lo) / 2 ≤ j by omega) with less | same
      · exact List.lt_asymm order (entry ▸ wordlist_lt less j_listed)
      · rw [same, entry] at order
        exact List.lt_irrefl _ order

theorem lower_letter {c : UInt8} (letter : 97 ≤ (lower c).toNat) : 32 < c.toNat := by
  rw [lower] at letter
  split at letter
  next upper =>
    have := UInt8.le_iff_toNat_le.mp upper.1
    exact Nat.lt_of_lt_of_le (by decide) this
  next => omega

/-- The index of a word, found in whatever case it is written. -/
theorem slip39_word_index_eq_some (word : Bytes) (index : UInt16) :
    slip39_word_index SLIP39_WORDLIST word = some index ↔
      index.toNat < SLIP39_WORD_COUNT ∧ word.map lower = SLIP39_WORDLIST index.toNat := by
  rw [slip39_word_index]
  constructor
  · intro found
    split at found
    next => cases found
    next =>
      obtain ⟨listed, entry⟩ := search_sound word (Nat.le_refl _) found
      exact ⟨listed, entry.symm⟩
  · rintro ⟨listed, entry⟩
    have some_letter : word.length ≠ 0 := by
      intro empty
      rw [List.length_eq_zero_iff.mp empty] at entry
      exact wordlist_ne_nil listed entry.symm
    rw [if_neg some_letter, search_complete word entry.symm (Nat.le_refl _) (Nat.zero_le _) listed (by decide),
      UInt16.ofNat_toNat]

/-! ### The text -/

/-- A text of words, each in any case, with blanks around and between them. -/
inductive Writes : Bytes → List UInt16 → Prop where
  | blanks {gap : Bytes} : (∀ c ∈ gap, c ≤ 32) → Writes gap []
  | word {gap letters rest : Bytes} {index : UInt16} {indices : List UInt16} : (∀ c ∈ gap, c ≤ 32) →
      index.toNat < SLIP39_WORD_COUNT → letters.map lower = SLIP39_WORDLIST index.toNat →
      (∀ c ∈ rest.head?, c ≤ 32) → Writes rest indices → Writes (gap ++ letters ++ rest) (index :: indices)

theorem words_blank {c : UInt8} (blank : c ≤ 32) (rest : Bytes) : words (c :: rest) = words rest := by
  rw [words, words, ← List.nil_append (c :: rest), List.splitOnP_append_cons [] rest (by simpa using blank)]
  rfl

theorem words_gap {gap : Bytes} (blank : ∀ c ∈ gap, c ≤ 32) (rest : Bytes) : words (gap ++ rest) = words rest := by
  induction gap with
  | nil => rfl
  | cons c gap ih =>
    rw [List.cons_append, words_blank (blank c List.mem_cons_self), ih fun c mem => blank c (List.mem_cons_of_mem _ mem)]

theorem words_word {letters rest : Bytes} (something : letters ≠ []) (visible : ∀ c ∈ letters, ¬ c ≤ 32)
    (separated : ∀ c ∈ rest.head?, c ≤ 32) : words (letters ++ rest) = letters :: words rest := by
  have inside : ∀ c ∈ letters, decide (c ≤ 32) = false := fun c mem => decide_eq_false (visible c mem)
  cases rest with
  | nil =>
    rw [List.append_nil, words, List.splitOnP_eq_singleton inside, List.filter_cons_of_pos (by simpa using something)]
    rfl
  | cons c rest =>
    have blank : c ≤ 32 := separated c rfl
    rw [words_blank blank, words, List.splitOnP_append_cons_of_forall_mem inside c (decide_eq_true blank),
      List.filter_cons_of_pos (by simpa using something), words]

/-- A text that begins with a letter: its first word and what is behind it. -/
theorem first_word {c : UInt8} (rest : Bytes) (letter : ¬ c ≤ 32) : ∃ letters behind, c :: rest = letters ++ behind ∧
    letters ≠ [] ∧ (∀ c ∈ letters, ¬ c ≤ 32) ∧ ∀ c ∈ behind.head?, c ≤ 32 := by
  induction rest generalizing c with
  | nil => exact ⟨[c], [], rfl, List.cons_ne_nil _ _, by simpa using letter, nofun⟩
  | cons next rest ih =>
    by_cases blank : next ≤ 32
    · exact ⟨[c], next :: rest, rfl, List.cons_ne_nil _ _, by simpa using letter, by simpa using blank⟩
    · obtain ⟨letters, behind, split, _, visible, separated⟩ := ih blank
      exact ⟨c :: letters, behind, by rw [split]; rfl, List.cons_ne_nil _ _, List.forall_mem_cons.mpr ⟨letter, visible⟩,
        separated⟩

theorem Writes.spaced {c : UInt8} {rest : Bytes} {indices : List UInt16} (blank : c ≤ 32) (writes : Writes rest indices) :
    Writes (c :: rest) indices := by
  cases writes with
  | blanks gap_blank => exact .blanks (List.forall_mem_cons.mpr ⟨blank, gap_blank⟩)
  | word gap_blank listed entry separated later =>
    exact .word (List.forall_mem_cons.mpr ⟨blank, gap_blank⟩) listed entry separated later

theorem visible_of_entry {letters : Bytes} {index : UInt16} (listed : index.toNat < SLIP39_WORD_COUNT)
    (entry : letters.map lower = SLIP39_WORDLIST index.toNat) : ∀ c ∈ letters, 32 < c.toNat := by
  intro c mem
  have among : lower c ∈ SLIP39_WORDLIST index.toNat := entry ▸ List.mem_map_of_mem mem
  exact lower_letter (wordlist_letter listed among).1

theorem words_of_writes {mnemonic : Bytes} {indices : List UInt16} (writes : Writes mnemonic indices) :
    (words mnemonic).map (slip39_word_index SLIP39_WORDLIST) = indices.map some := by
  induction writes with
  | blanks blank =>
    have none := words_gap blank []
    rw [List.append_nil] at none
    rw [none]
    rfl
  | @word gap letters rest index indices blank listed entry separated later ih =>
    have visible := visible_of_entry listed entry
    have something : letters ≠ [] := by
      rintro rfl
      exact wordlist_ne_nil listed entry.symm
    rw [List.append_assoc, words_gap blank, words_word something _ separated, List.map_cons, List.map_cons, ih,
      (slip39_word_index_eq_some _ index).mpr ⟨listed, entry⟩]
    intro c mem small
    exact Nat.not_le.mpr (visible c mem) (UInt8.le_iff_toNat_le.mp small)

theorem writes_of_words {indices : List UInt16} (mnemonic : Bytes)
    (found : (words mnemonic).map (slip39_word_index SLIP39_WORDLIST) = indices.map some) : Writes mnemonic indices := by
  match mnemonic with
  | [] =>
    obtain rfl : indices = [] := List.map_eq_nil_iff.mp found.symm
    exact .blanks (List.forall_mem_nil _)
  | c :: rest =>
    by_cases blank : c ≤ 32
    · rw [words_blank blank] at found
      exact (writes_of_words rest found).spaced blank
    · obtain ⟨letters, behind, split, something, visible, separated⟩ := first_word rest blank
      have shorter : behind.length < (c :: rest).length := by
        rw [split, List.length_append]
        exact Nat.lt_add_of_pos_left (List.length_pos_iff.mpr something)
      rw [split] at found ⊢
      rw [words_word something visible separated] at found
      cases indices with
      | nil => cases found
      | cons index indices =>
        rw [List.map_cons, List.map_cons, List.cons.injEq] at found
        obtain ⟨listed, entry⟩ := (slip39_word_index_eq_some letters index).mp found.1
        exact .word (List.forall_mem_nil _) listed entry separated (writes_of_words behind found.2)
termination_by mnemonic.length
decreasing_by
  · exact Nat.lt_succ_self _
  · exact shorter

/-- What a text writes is what its words are found as. -/
theorem writes_iff {mnemonic : Bytes} {indices : List UInt16} :
    Writes mnemonic indices ↔ (words mnemonic).map (slip39_word_index SLIP39_WORDLIST) = indices.map some :=
  ⟨words_of_writes, writes_of_words mnemonic⟩

/-- Words in small letters, a space behind each. -/
def plain (indices : List UInt16) : Bytes := indices.flatMap fun index => SLIP39_WORDLIST index.toNat ++ [32]

theorem lower_entry {i : Nat} (listed : i < SLIP39_WORD_COUNT) : (SLIP39_WORDLIST i).map lower = SLIP39_WORDLIST i := by
  refine (List.map_congr_left (g := id) fun c mem => ?_).trans (List.map_id _)
  have letter := (wordlist_letter listed mem).1
  rw [lower, if_neg, id]
  rintro ⟨_, capital⟩
  have := UInt8.le_iff_toNat_le.mp capital
  simp only [UInt8.reduceToNat] at this
  omega

theorem writes_plain : ∀ {indices : List UInt16}, (∀ index ∈ indices, index.toNat < SLIP39_WORD_COUNT) →
    Writes (plain indices) indices
  | [], _ => .blanks (List.forall_mem_nil _)
  | index :: indices, listed => by
    rw [List.forall_mem_cons] at listed
    have later := (writes_plain listed.2).spaced (c := 32) (by decide)
    have writes : Writes ([] ++ SLIP39_WORDLIST index.toNat ++ 32 :: plain indices) (index :: indices) :=
      .word (List.forall_mem_nil _) listed.1 (lower_entry listed.1) (by simp) later
    rwa [plain, List.flatMap_cons, List.append_assoc]

/-- The loop over the words: all of them are found, and there are not too many. -/
theorem lookup_eq_ok {wordlist : Nat → Bytes} : ∀ {found : List Bytes} {before after : List UInt16},
    before.length ≤ SLIP39_LONG_SHARE_WORDS → (lookup wordlist before found = .ok after ↔
      ∃ indices, after = before ++ indices ∧ found.map (slip39_word_index wordlist) = indices.map some ∧
        after.length ≤ SLIP39_LONG_SHARE_WORDS)
  | [], before, after, small => by
    rw [lookup, Except.ok.injEq]
    constructor
    · rintro rfl
      exact ⟨[], (List.append_nil _).symm, rfl, small⟩
    · rintro ⟨indices, rfl, none, _⟩
      rw [List.map_eq_nil_iff.mp none.symm, List.append_nil]
  | word :: found, before, after, small => by
    rw [lookup]
    by_cases full : before.length = SLIP39_LONG_SHARE_WORDS
    · rw [if_pos full]
      refine ⟨nofun, ?_⟩
      rintro ⟨indices, rfl, same, room⟩
      have counted := congrArg List.length same
      rw [List.length_map, List.length_map, List.length_cons] at counted
      rw [List.length_append] at room
      omega
    · rw [if_neg full]
      cases known : slip39_word_index wordlist word with
      | none =>
        refine ⟨nofun, ?_⟩
        rintro ⟨indices, _, same, _⟩
        cases indices with
        | nil => cases same
        | cons index indices => simp [known] at same
      | some index =>
        have room : (before ++ [index]).length ≤ SLIP39_LONG_SHARE_WORDS := by
          rw [List.length_append, List.length_singleton]
          omega
        have later := @lookup_eq_ok wordlist found (before ++ [index]) after room
        simp only
        rw [later]
        constructor
        · rintro ⟨indices, rfl, same, fits⟩
          exact ⟨index :: indices, by simp, by rw [List.map_cons, known, same, List.map_cons], fits⟩
        · rintro ⟨indices, rfl, same, fits⟩
          cases indices with
          | nil => cases same
          | cons first indices =>
            rw [List.map_cons, List.map_cons, known, List.cons.injEq, Option.some.injEq] at same
            obtain ⟨rfl, same⟩ := same
            exact ⟨indices, by simp, same, fits⟩

/-- What is looked up in a text is what it writes, if that is not too long. -/
theorem lookup_words {mnemonic : Bytes} {indices : List UInt16} :
    lookup SLIP39_WORDLIST [] (words mnemonic) = .ok indices ↔
      Writes mnemonic indices ∧ indices.length ≤ SLIP39_LONG_SHARE_WORDS := by
  rw [lookup_eq_ok (Nat.zero_le _), writes_iff]
  constructor
  · rintro ⟨same, rfl, found, fits⟩
    exact ⟨found, fits⟩
  · rintro ⟨found, fits⟩
    exact ⟨indices, rfl, found, fits⟩

theorem Writes.ne_nil {mnemonic : Bytes} {indices : List UInt16} (writes : Writes mnemonic indices) (something : indices ≠ []) :
    mnemonic ≠ [] := by
  rintro rfl
  obtain rfl : indices = [] := List.map_eq_nil_iff.mp (words_of_writes writes).symm
  exact something rfl

theorem parse_of_writes {mnemonic : Bytes} {indices : List UInt16} (writes : Writes mnemonic indices)
    (counted : indices.length = SLIP39_SHORT_SHARE_WORDS ∨ indices.length = SLIP39_LONG_SHARE_WORDS) :
    slip39_parse_share SLIP39_WORDLIST mnemonic = read_share indices := by
  have fits : indices.length ≤ SLIP39_LONG_SHARE_WORDS := by
    rcases counted with short | long
    · rw [short]
      decide
    · exact Nat.le_of_eq long
  have something : indices ≠ [] := by
    rintro rfl
    rcases counted with short | long
    · cases short
    · cases long
  have present : decide (mnemonic.length ≠ 0) = true :=
    decide_eq_true fun empty => writes.ne_nil something (List.length_eq_zero_iff.mp empty)
  have known : ¬ (indices.length ≠ SLIP39_SHORT_SHARE_WORDS ∧ indices.length ≠ SLIP39_LONG_SHARE_WORDS) :=
    fun other => counted.elim other.1 other.2
  rw [slip39_parse_share, present, Check.ensure_true, Check.ok_bind, lookup_words.mpr ⟨writes, fits⟩]
  exact if_neg known

theorem Writes.listed {mnemonic : Bytes} {indices : List UInt16} (writes : Writes mnemonic indices) :
    ∀ index ∈ indices, index.toNat < SLIP39_WORD_COUNT := by
  induction writes with
  | blanks => exact fun _ => nofun
  | word _ listed _ _ _ ih => exact List.forall_mem_cons.mpr ⟨listed, ih⟩

end PiJade.Slip39
