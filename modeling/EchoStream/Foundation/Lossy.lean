import Mathlib.Data.List.Perm.Basic
import EchoStream.Foundation.Run

/-! Post that may get lost. Each piece that is sent is under way by itself: it may be lost,
it may overtake those sent before it, and where it has arrived it waits until it is taken or
is pushed out by later ones. -/

namespace EchoStream.Foundation.Lossy
open Run

variable {α : Type}

structure Post (α : Type) where
  sent : List α
  flying : List α
  waiting : List α
  taken : List α
  lost : List α

namespace Post

def empty : Post α := ⟨[], [], [], [], []⟩

def send (post : Post α) (item : α) : Post α :=
  { post with sent := post.sent ++ [item], flying := post.flying ++ [item] }

def lose (post : Post α) (k : Nat) : Option (Post α) :=
  post.flying[k]?.map (fun item => { post with flying := post.flying.eraseIdx k, lost := post.lost ++ [item] })

def arrive (post : Post α) (k : Nat) : Option (Post α) :=
  post.flying[k]?.map (fun item => { post with flying := post.flying.eraseIdx k, waiting := post.waiting ++ [item] })

/-- The piece that has waited longest makes room. -/
def evict (post : Post α) : Option (Post α) :=
  match post.waiting with
  | item :: rest => some { post with waiting := rest, lost := post.lost ++ [item] }
  | [] => none

def take (post : Post α) : Option (α × Post α) :=
  match post.waiting with
  | item :: rest => some (item, { post with waiting := rest, taken := post.taken ++ [item] })
  | [] => none

end Post

/-- What happens to post, where only pieces at these places may arrive. -/
inductive Moves (may : Nat → Prop) (post : Post α) : Post α → Prop where
  | stays : Moves may post post
  | send (item : α) : Moves may post (post.send item)
  | lose {k : Nat} {next : Post α} (lost : post.lose k = some next) : Moves may post next
  | arrive {k : Nat} {next : Post α} (here : may k) (arrived : post.arrive k = some next) : Moves may post next
  | evict {next : Post α} (evicted : post.evict = some next) : Moves may post next
  | take {item : α} {next : Post α} (took : post.take = some (item, next)) : Moves may post next

/-- Nothing is lost and nothing is made up. -/
def Accounted (post : Post α) : Prop :=
  post.sent.Perm (post.taken ++ (post.waiting ++ (post.flying ++ post.lost)))

/-- What is not lost is taken in the order it was sent. -/
def InOrder (post : Post α) : Prop := (post.taken ++ (post.waiting ++ post.flying)).Sublist post.sent

variable {may : Nat → Prop} {post next : Post α} {item : α}

theorem lose_some {k : Nat} (lost : post.lose k = some next) : ∃ item, post.flying[k]? = some item ∧
    next = { post with flying := post.flying.eraseIdx k, lost := post.lost ++ [item] } := by
  obtain ⟨item, found, rfl⟩ := Option.map_eq_some_iff.1 lost
  exact ⟨item, found, rfl⟩

theorem arrive_some {k : Nat} (arrived : post.arrive k = some next) : ∃ item, post.flying[k]? = some item ∧
    next = { post with flying := post.flying.eraseIdx k, waiting := post.waiting ++ [item] } := by
  obtain ⟨item, found, rfl⟩ := Option.map_eq_some_iff.1 arrived
  exact ⟨item, found, rfl⟩

theorem evict_some (evicted : post.evict = some next) : ∃ item rest, post.waiting = item :: rest ∧
    next = { post with waiting := rest, lost := post.lost ++ [item] } := by
  unfold Post.evict at evicted
  split at evicted
  · next item rest found =>
    cases evicted
    exact ⟨item, rest, found, rfl⟩
  · cases evicted

theorem take_some (took : post.take = some (item, next)) : ∃ rest, post.waiting = item :: rest ∧
    next = { post with waiting := rest, taken := post.taken ++ [item] } := by
  unfold Post.take at took
  split at took
  · next first rest found =>
    cases took
    exact ⟨rest, found, rfl⟩
  · cases took

theorem erased_perm {items : List α} {k : Nat} (found : items[k]? = some item) : items.Perm (item :: items.eraseIdx k) := by
  obtain ⟨within, rfl⟩ := List.getElem?_eq_some_iff.1 found
  exact (List.getElem_cons_eraseIdx_perm within).symm

theorem Accounted.empty : Accounted (.empty : Post α) := List.Perm.refl _

theorem Accounted.moves (accounted : Accounted post) (moves : Moves may post next) : Accounted next := by
  unfold Accounted at accounted ⊢
  cases moves with
  | stays => exact accounted
  | send item =>
    refine (accounted.append_right [item]).trans ?_
    simp only [Post.send, List.append_assoc]
    have swapped : (post.lost ++ [item]).Perm ([item] ++ post.lost) := List.perm_append_comm
    exact ((swapped.append_left post.flying).append_left post.waiting).append_left post.taken
  | lose lost =>
    obtain ⟨item, found, rfl⟩ := lose_some lost
    refine accounted.trans (((?_ : List.Perm _ _).append_left post.waiting).append_left post.taken)
    refine ((erased_perm found).append_right post.lost).trans ?_
    rw [← List.append_assoc]
    exact (List.perm_append_singleton item (post.flying.eraseIdx _ ++ post.lost)).symm
  | arrive _ arrived =>
    obtain ⟨item, found, rfl⟩ := arrive_some arrived
    refine accounted.trans ((?_ : List.Perm _ _).append_left post.taken)
    simp only [List.append_assoc]
    exact ((erased_perm found).append_right post.lost).append_left post.waiting
  | evict evicted =>
    obtain ⟨item, rest, found, rfl⟩ := evict_some evicted
    refine accounted.trans ((?_ : List.Perm _ _).append_left post.taken)
    rw [found]
    simp only [← List.append_assoc]
    exact (List.perm_append_singleton item (rest ++ post.flying ++ post.lost)).symm
  | take took =>
    obtain ⟨rest, found, rfl⟩ := take_some took
    rw [found] at accounted
    simpa using accounted

theorem InOrder.empty : InOrder (.empty : Post α) := List.Sublist.refl _

theorem InOrder.moves (ordered : InOrder post) (moves : Moves (fun k => k = 0) post next) : InOrder next := by
  unfold InOrder at ordered ⊢
  cases moves with
  | stays => exact ordered
  | send item =>
    have more := ordered.append (List.Sublist.refl [item])
    simpa [Post.send] using more
  | @lose k _ lost =>
    obtain ⟨item, -, rfl⟩ := lose_some lost
    have fewer := ((List.eraseIdx_sublist post.flying k).append_left post.waiting).append_left post.taken
    exact fewer.trans ordered
  | arrive here arrived =>
    obtain ⟨item, found, rfl⟩ := arrive_some (here ▸ arrived)
    cases flying : post.flying with
    | nil =>
      rw [flying] at found
      cases found
    | cons first rest =>
      rw [flying] at found ordered
      cases found
      simpa using ordered
  | evict evicted =>
    obtain ⟨item, rest, found, rfl⟩ := evict_some evicted
    rw [found] at ordered
    have fewer := (List.sublist_cons_self item (rest ++ post.flying)).append_left post.taken
    exact fewer.trans ordered
  | take took =>
    obtain ⟨rest, found, rfl⟩ := take_some took
    rw [found] at ordered
    simpa using ordered

end EchoStream.Foundation.Lossy
