import DnsFanout.Proxy

/-! Resolvers whose datagrams are there from the start, for trying exchanges without a network. -/

namespace DnsFanout.Rehearsal

open Net

/-- A network where every socket opens and gets the same datagrams; no stream opens. -/
structure Post where
  mail : List (Instant × Bytes)

instance : Network Post where
  ask _ now _ _ post := ((.error .timeout, now), post)
  drop _ _ post := post
  openSocket _ _ post := (.ok 3, post)
  send _ _ _ post := (.ok (), post)
  arrivals _ post := post.mail.map fun d => (d.1, .ok d.2)
  take _ n post := ⟨post.mail.drop n⟩
  close _ _ post := post
  connect _ _ now post := ((.error .timeout, now), post)
  secure _ _ _ now post := ((.error .timeout, now), post)

def postOffice : SocketAddress := ⟨.v4 ⟨192, 0, 2, 53⟩, 53⟩

/-- A resolver that gets the mail, whatever it asks. -/
def receiving (mail : List (Instant × Bytes)) : Proxy Post :=
  .ofEndpoint (.plain postOffice) 10 false ⟨mail⟩

end DnsFanout.Rehearsal
