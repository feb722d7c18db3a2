import SlugBase.Lib.Transition
import SlugBase.Departure
import SlugBase.Bookmark.CountRuns
import SlugBase.Access.Restated
import SlugBase.Import.Agreement
import SlugBase.Members.Owner
import SlugBase.Instance.Admins
import SlugBase.Auth.Undo
import SlugBase.Auth.Replaced
import SlugBase.Mfa.Replayed
import SlugBase.Invitation.Once
import SlugBase.Invitation.Tracked
import SlugBase.RateLimit.Bound
import SlugBase.Usage.Conserved
import SlugBase.Entitlements.Cache
import SlugBase.Auth.Lifetime
import SlugBase.Egress.Safe
import SlugBase.Bulk.Agreement
import SlugBase.Team.Members
import SlugBase.Tagging.Merged
import SlugBase.Migrate.Finished
import SlugBase.Oidc.ExportOnly
import SlugBase.Oidc.Handshakes
import SlugBase.Lib.Ranked
import SlugBase.Search.Statement
import SlugBase.Search.Hits
import SlugBase.Search.Exact
import SlugBase.Listing.Page
import SlugBase.Listing.Orders
import SlugBase.Listing.Walk
import SlugBase.Listing.Pages
import SlugBase.Listing.Agreement
import SlugBase.Editing.Update
import SlugBase.Editing.Decision
import SlugBase.Editing.Runs
import SlugBase.Editing.Versions
import SlugBase.Lib.Waiting
import SlugBase.Naming.Store
import SlugBase.Naming.Runs
import SlugBase.Naming.Sound
import SlugBase.Naming.Valid
import SlugBase.Naming.Outcomes
import SlugBase.Egress.Split
import SlugBase.Egress.Ipv6
import SlugBase.Egress.Ipv4
import SlugBase.Egress.Cidr
import SlugBase.Egress.Format
import SlugBase.Egress.Classified
import SlugBase.Client.Address
import SlugBase.Client.Groups
import SlugBase.Client.Keys
import SlugBase.Lib.Ties
import SlugBase.Bookmark.Query
import SlugBase.Bookmark.Canonical
import SlugBase.Lib.Reading
import SlugBase.Icons.Codec
import SlugBase.Icons.Header
import SlugBase.Icons.Colours
import SlugBase.Icons.Pixels
import SlugBase.Import.Markup
import SlugBase.Import.Netscape
import SlugBase.Import.Attribution
import SlugBase.Lib.Pipeline
import SlugBase.Http.Request
import SlugBase.Http.Stages
import SlugBase.Http.Chain
import SlugBase.Lib.Keyset
import SlugBase.Keyset.Cursor
import SlugBase.Keyset.Names
import SlugBase.Keyset.Folders
import SlugBase.Keyset.Tags
import SlugBase.Keyset.Audit
import SlugBase.Keyset.Pages
import SlugBase.Favicons.Cache
import SlugBase.Favicons.Apart
import SlugBase.Lib.SortedSearch
import SlugBase.Breached.Lookup
import SlugBase.Breached.Exact
import SlugBase.Release.Versions
import SlugBase.Import.Planned
import SlugBase.Import.Choices
import SlugBase.Http.Routes
import SlugBase.Lib.Json
import SlugBase.Identity.IdToken
import SlugBase.Go.Resolve
import SlugBase.Lib.PrefixCode
import SlugBase.Lib.Stringify
import SlugBase.Lib.Utf8
import SlugBase.Http.RequestHash
import SlugBase.Ai.Suggest
import SlugBase.Lib.PercentEncode
import SlugBase.Lib.UrlPath
import SlugBase.Oidc.ReturnTo
import SlugBase.Identity.Limiter
import SlugBase.Lib.Loop
import SlugBase.Page.Scanner
import SlugBase.Page.Metadata
import SlugBase.Page.Suffix
import SlugBase.Import.Cursor
import SlugBase.Export.Escape
import SlugBase.Export.Netscape
import SlugBase.Export.Markup
import SlugBase.Export.RoundTrip
import SlugBase.Listing.Exact
import SlugBase.Preference.Routes
import SlugBase.Preference.Orphans
import SlugBase.Setup.Once
import SlugBase.Idempotency.Once
import SlugBase.Departure.Runs
import SlugBase.Export.Json
import SlugBase.Errors.Scrub
import SlugBase.Identity.Providers
import SlugBase.Mfa.Codes
