import ThemePress.Time.Instant

/-! # Ages in words

How long ago something was, in the largest unit that fits: minutes below an hour, hours below a day,
days below a month and so on. What lies ahead counts as just now. -/

namespace ThemePress.Time

/-- The age of `t` at the instant `now`, in words. -/
def Instant.age (t now : Instant) : String :=
  let seconds := (t.nanosBetween now).tdiv Instant.nanosPerSecond
  let minutes := seconds.tdiv 60
  let hours := seconds.tdiv 3600
  let days := seconds.tdiv 86400
  if minutes < 1 then "a few seconds ago"
  else if minutes < 2 then "a minute ago"
  else if minutes < 60 then toString minutes ++ " minutes ago"
  else if hours < 2 then "an hour ago"
  else if hours < 24 then toString hours ++ " hours ago"
  else if hours < 48 then "a day ago"
  else if days < 25 then toString days ++ " days ago"
  else if days < 45 then "a month ago"
  else if days < 345 then toString (max (days.tdiv 30) 2) ++ " months ago"
  else if days < 548 then "a year ago"
  else toString (max (days.tdiv 365) 2) ++ " years ago"

end ThemePress.Time
