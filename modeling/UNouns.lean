import UNouns.Art.Descriptor
import UNouns.Art.Frozen
import UNouns.Art.Gallery
import UNouns.Art.Inflator
import UNouns.Art.MultiPartRLEToSVG
import UNouns.Art.NounsArt
import UNouns.Art.Paging
import UNouns.Art.Painting
import UNouns.Art.Rects
import UNouns.Art.SSTORE2
import UNouns.Art.SVGRenderer
import UNouns.Assets.Seed
import UNouns.Auction.Bidding
import UNouns.Auction.Books
import UNouns.Auction.Custody
import UNouns.Auction.Effects
import UNouns.Auction.Escrow
import UNouns.Auction.House
import UNouns.Auction.Runs
import UNouns.Auction.Settlement
import UNouns.Auction.System
import UNouns.Auction.Timeline
import UNouns.Evm.Basic
import UNouns.Governance.Announced
import UNouns.Governance.Charter
import UNouns.Governance.Continuity
import UNouns.Governance.Deeds
import UNouns.Governance.Effects
import UNouns.Governance.Execution
import UNouns.Governance.Invariants
import UNouns.Governance.Lifecycle
import UNouns.Governance.LogicV1
import UNouns.Governance.LogicV2
import UNouns.Governance.Moves
import UNouns.Governance.OneLive
import UNouns.Governance.Orphans
import UNouns.Governance.Parameters
import UNouns.Governance.Queue
import UNouns.Governance.Quorum
import UNouns.Governance.Quotes
import UNouns.Governance.Records
import UNouns.Governance.Refunds
import UNouns.Governance.Safety
import UNouns.Governance.Snapshot
import UNouns.Governance.Storage
import UNouns.Governance.Supply
import UNouns.Governance.System
import UNouns.Governance.SystemV1
import UNouns.Governance.Tallies
import UNouns.Governance.Timetable
import UNouns.Governance.Upgrade
import UNouns.Inflate.Blocks
import UNouns.Inflate.Codes
import UNouns.Inflate.Construct
import UNouns.Inflate.Cursor
import UNouns.Inflate.Dynamic
import UNouns.Inflate.Header
import UNouns.Inflate.Inflation
import UNouns.Inflate.Puff
import UNouns.Inflate.Stored
import UNouns.Inflate.Tables
import UNouns.Inflate.Totality
import UNouns.Inflate.Usable
import UNouns.Inflate.Words
import UNouns.Lib.Abi
import UNouns.Lib.Base64
import UNouns.Lib.Bits
import UNouns.Lib.Checkpoints
import UNouns.Lib.Deflate
import UNouns.Lib.Delivery
import UNouns.Lib.Escrow
import UNouns.Lib.Files
import UNouns.Lib.Guard
import UNouns.Lib.HexString
import UNouns.Lib.Histories
import UNouns.Lib.HuffmanCode
import UNouns.Lib.Interning
import UNouns.Lib.Journal
import UNouns.Lib.Json
import UNouns.Lib.Listing
import UNouns.Lib.Lookup
import UNouns.Lib.Machine
import UNouns.Lib.OrderedMap
import UNouns.Lib.Pages
import UNouns.Lib.Raster
import UNouns.Lib.Reentrant
import UNouns.Lib.Reports
import UNouns.Lib.Simulation
import UNouns.Lib.Sums
import UNouns.Sdk.Bounds
import UNouns.Sdk.Collection
import UNouns.Sdk.Encoder
import UNouns.Sdk.Image
import UNouns.Sdk.SvgBuilder
import UNouns.Subgraph.Auctions
import UNouns.Subgraph.Ballots
import UNouns.Subgraph.Books
import UNouns.Subgraph.Census
import UNouns.Subgraph.Chain
import UNouns.Subgraph.Dao
import UNouns.Subgraph.Delegation
import UNouns.Subgraph.Desk
import UNouns.Subgraph.Enrolment
import UNouns.Subgraph.Entries
import UNouns.Subgraph.History
import UNouns.Subgraph.Market
import UNouns.Subgraph.Origin
import UNouns.Subgraph.Ownership
import UNouns.Subgraph.Proposals
import UNouns.Subgraph.Queue
import UNouns.Subgraph.Quorum
import UNouns.Subgraph.Receipts
import UNouns.Subgraph.Rolls
import UNouns.Subgraph.Store
import UNouns.Subgraph.Token
import UNouns.Subgraph.Totals
import UNouns.Tasks.Collection
import UNouns.Tasks.Populate
import UNouns.Timelock.Executor
import UNouns.Timelock.Safety
import UNouns.Token.Backing
import UNouns.Token.Checkpointable
import UNouns.Token.Choices
import UNouns.Token.Consent
import UNouns.Token.Dealings
import UNouns.Token.ERC721
import UNouns.Token.Enumerable
import UNouns.Token.Issuance
import UNouns.Token.Ledger
import UNouns.Token.Listing
import UNouns.Token.Liveness
import UNouns.Token.Polls
import UNouns.Token.PriorVotes
import UNouns.Token.Seeds
import UNouns.Token.Steps
import UNouns.Token.Storage
import UNouns.Token.Transfers
import UNouns.Token.UNounsToken
import UNouns.Token.Votes
import UNouns.Webapp.Auction
import UNouns.Webapp.Metadata
import UNouns.Webapp.NounderNoun
import UNouns.Webapp.NounsDao
