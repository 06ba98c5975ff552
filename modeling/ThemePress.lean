import ThemePress.Main
import ThemePress.Proofs.Template.Pairing
import ThemePress.Proofs.Template.Buffer
import ThemePress.Proofs.Render.Splice
import ThemePress.Proofs.Render.Lifting
import ThemePress.Proofs.Render.Levels
import ThemePress.Proofs.Render.InTurn
import ThemePress.Proofs.Render.Trace
import ThemePress.Proofs.Render.Layout
import ThemePress.Proofs.Blog.Order
import ThemePress.Proofs.Blog.Windows
import ThemePress.Proofs.Blog.Loading
import ThemePress.Proofs.Site.Unpublished
import ThemePress.Proofs.Blog.Paging
import ThemePress.Proofs.Render.Links
import ThemePress.Proofs.Site.Pages
import ThemePress.Proofs.Blog.References
import ThemePress.Proofs.Site.Links
import ThemePress.Proofs.Template.Reading
import ThemePress.Proofs.Render.Markup
import ThemePress.Proofs.Blog.Faults
import ThemePress.Proofs.Render.Limit
import ThemePress.Proofs.Template.Sources
import ThemePress.Proofs.Site.Fingerprint
import ThemePress.Proofs.Site.Session
import ThemePress.Proofs.Template.Written
import ThemePress.Proofs.Template.Branches
import ThemePress.Proofs.Theme.Files
import ThemePress.Proofs.Render.Inclusion
import ThemePress.Proofs.Render.Cursors
import ThemePress.Proofs.Render.Loops
import ThemePress.Proofs.Render.SetAside
import ThemePress.Proofs.Template.Quotes
import ThemePress.Proofs.Render.PlainText
import ThemePress.Proofs.Render.Encoded
import ThemePress.Proofs.Render.AuthorBlock
import ThemePress.Proofs.Time.Age
import ThemePress.Proofs.Time.Format
import ThemePress.Proofs.Time.Week
import ThemePress.Proofs.Time.Width
import ThemePress.Proofs.Text.Slug
import ThemePress.Proofs.Site.Navigation
import ThemePress.Proofs.Site.Activation
import ThemePress.Proofs.Template.Stripped
import ThemePress.Proofs.Site.Joined
import ThemePress.Proofs.Text.Entity
